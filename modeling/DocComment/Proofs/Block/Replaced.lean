import DocComment.Proofs.Block.Edited
import DocComment.Proofs.Block.Named

/-!
# Replaced tags

Whatever has been done to a block, there is one tag of a name after the tags of this name have been
replaced, and it says what the rules make of the payload; all other nodes are as they were
(`Replaced`). The tag keeps its place if it was the only one and was read from the comment, and else
it is a new node at the end (`replaceTag_act`).

Between the edits single nodes may be changed, so a block may list a fragment twice. It has no
forest any more then, but no fragment ever stands at the top (`layered_act`), so a tag that is read
anew is part of no other node.
-/

namespace DocComment

open Text

/-! ### Changes of single nodes -/

namespace Node

variable (c : Node.Change) (n : Node)

lemma fragments_change_subset : (n.change c).fragments ⊆ n.fragments := by
  cases n with
  | container name signature fragments description =>
    cases c with
    | keep positions =>
      intro f hf
      obtain ⟨i, -, hi⟩ := List.mem_filterMap.1 hf
      exact List.mem_of_getElem? hi
    | _ => exact List.Subset.refl _
  | tag name value => cases c <;> cases value <;> exact List.Subset.refl _
  | _ => cases c <;> exact List.Subset.refl _

lemma change_eq_fragment_iff :
    (∃ text, n.change c = .fragment text) ↔ ∃ text, n = .fragment text := by
  cases n with
  | fragment text => cases c <;> simp [change]
  | tag name value => cases c <;> cases value <;> simp [change]
  | _ => cases c <;> simp [change]

end Node

namespace Block

lemma layered_changeNode {b : Block} (h : b.tree.Layered) (id : NodeId) (c : Node.Change) :
    (b.changeNode id c).tree.Layered := by
  unfold changeNode
  split
  · exact h
  · next n hn =>
    have hold : ∀ f ∈ (n.change c).fragments, f ∈ b.tree.fragments id := by
      rw [Tree.fragments_of_node? hn]
      exact fun f hf => Node.fragments_change_subset c n hf
    exact h.replace hn (fun f hf => h.fragment (hold f hf)) (Node.change_eq_fragment_iff c n)

lemma layered_act {b : Block} (h : b.tree.Layered) (as : List Action) : (b.act as).tree.Layered :=
  act_induction (fun hs h => layered_step h hs) (fun id c h => layered_changeNode h id c) as h

/-! ### The other nodes -/

/-- The top nodes that are no tags of this name, in order. -/
def others (b : Block) (name : Text) : List NodeId :=
  b.tree.top.filter fun id => !(b.tree.node? id).any (isTagNamed (bareName name))

/-- The block `b'` has one tag of this name, which says `c`, and all other nodes of `b`. -/
structure Replaced (b b' : Block) (name : Text) (c : Node.Content) (id : NodeId) : Prop where
  tagsNamed : b'.tagsNamed name = [id]
  content? : b'.tree.content? id = some c
  others : b'.others name = b.others name
  keeps : ∀ i ∈ b.others name, Keeps b b' i

variable {b : Block} {name : Text} {id : NodeId}

lemma mem_others : id ∈ b.others name ↔
    id ∈ b.tree.top ∧ (b.tree.node? id).any (isTagNamed (bareName name)) = false := by
  rw [others, List.mem_filter, Bool.not_eq_true']

lemma top_dropTags (b : Block) (name : Text) :
    (b.dropTags (bareName name)).1.tree.top = b.others name := by
  unfold dropTags others
  dsimp only
  split_ifs with hnone
  · rw [List.filter_eq_nil_iff] at hnone
    exact (List.filter_eq_self.2 fun id hid => by simpa using hnone id hid).symm
  · rfl

/-- A tag that is made for a name is found under it. -/
lemma isTagNamed_of_content? {t : Tree} {name : Text} {r : Reading}
    (h : t.content? id = some (r.content name)) : (t.node? id).any (isTagNamed name) :=
  (t.isTagNamed_iff h name).2 (Node.Content.tagName?_content name r)

/-- All tags of a name make way for one at the end. -/
lemma replaced_pushTag (h : b.tree.Layered) (name : Text) (r : Reading) :
    let b₁ := (b.dropTags (bareName name)).1
    let b₂ := b₁.pushTag (bareName name) r
    Replaced b b₂.1 name (r.content (bareName name)) b₂.2 ∧ b.tree.nodes.size ≤ b₂.2 ∧
      b₂.1.tree.top = b.others name ++ [b₂.2] := by
  intro b₁ b₂
  have hlayered : b₁.tree.Layered := layered_step h (Step.dropTags (p := fun _ => True) b _)
  have hkeeps : ∀ i ∈ b.others name, Keeps b b₂.1 i := by
    intro i hi
    rw [← top_dropTags] at hi
    exact (keeps_dropTags _ b i).trans (keeps_pushTag _ r hlayered hi)
  have htop : b₂.1.tree.top = b.others name ++ [b₂.2] := by
    rw [← top_dropTags]
    simp [b₂, b₁, pushTag]
  have hcontent := content?_pushTag (bareName name) r b₁
  have hnew := isTagNamed_of_content? hcontent
  have hold : ∀ i ∈ b.others name,
      (b₂.1.tree.node? i).any (isTagNamed (bareName name)) = false := by
    intro i hi
    rw [(hkeeps i hi).node? i List.mem_cons_self]
    exact (mem_others.1 hi).2
  have hsize : b.tree.nodes.size = b₁.tree.nodes.size := by
    unfold b₁ dropTags
    dsimp only
    split_ifs <;> rfl
  refine ⟨⟨?_, hcontent, ?_, hkeeps⟩, ?_, htop⟩
  · rw [tagsNamed_eq_filter, htop, List.filter_append, List.filter_eq_nil_iff.2, List.nil_append]
    · exact List.filter_cons_of_pos hnew
    · exact fun i hi => by simp [hold i hi]
  · rw [others, htop, List.filter_append, List.filter_eq_self.2, List.filter_cons_of_neg,
      List.filter_nil, List.append_nil]
    · simpa using hnew
    · exact fun i hi => by simp [hold i hi]
  · rw [hsize]
    exact Tree.size_le_makeTag_snd b₁.tree _ r

/-- The only tag of a name is read anew where it stands. -/
lemma replaced_rereadTag (h : b.tree.Layered) (hsole : b.tagsNamed name = [id]) (r : Reading) :
    Replaced b (b.rereadTag id (bareName name) r) name (r.content (bareName name)) id := by
  obtain ⟨htop, n, hn, hname⟩ := mem_tagsNamed (hsole ▸ List.mem_singleton_self id)
  have hcontent := content?_rereadTag (bareName name) r (h.lt_size_of_mem_top htop)
  have hkeeps : ∀ i ∈ b.tree.top, i ≠ id → Keeps b (b.rereadTag id (bareName name) r) i :=
    fun i hi hne => keeps_rereadTag _ r h htop hi hne
  -- Every top node has the name exactly if it had it before.
  have hnamed : ∀ i ∈ b.tree.top,
      ((b.rereadTag id (bareName name) r).tree.node? i).any (isTagNamed (bareName name)) =
        (b.tree.node? i).any (isTagNamed (bareName name)) := by
    intro i hi
    by_cases hne : i = id
    · subst hne
      rw [isTagNamed_of_content? hcontent, hn, Option.any_some, isTagNamed, hname]
      simp
    · rw [(hkeeps i hi hne).node? i List.mem_cons_self]
  refine ⟨?_, hcontent, ?_, fun i hi => ?_⟩
  · rw [← hsole, tagsNamed_eq_filter, tagsNamed_eq_filter, top_rereadTag]
    exact List.filter_congr hnamed
  · rw [others, others, top_rereadTag]
    exact List.filter_congr fun i hi => congrArg _ (hnamed i hi)
  · obtain ⟨hi, hother⟩ := mem_others.1 hi
    refine hkeeps i hi ?_
    rintro rfl
    simp [hn, isTagNamed, hname] at hother

/-! ### Replacing the tags of a name -/

/-- Replacing a tag gives the same block in every state: one tag of the name, which says what the
rules make of the payload, and all other nodes as they were. -/
theorem replaceTag_act (rules : Rules) (declaration? : Option Nat) (raw? : Option Text)
    (as : List Action) {name payload : Text} (hname : checkName name = .ok (bareName name))
    (hbare : (bareName name).head? ≠ some '@') (hpayload : checkContent payload = .ok ()) :
    let b₀ := ofComment rules declaration? raw?
    let b := b₀.act as
    let c := (rules.resolve (bareName name) (trim payload)).content (bareName name)
    ∃ id b', outcome (replaceTag name payload) b = (.ok id, b') ∧ Replaced b b' name c id ∧
      ((b.tagsNamed name = [id] ∧ id ∈ b₀.tree.top ∧ b'.tree.top = b.tree.top) ∨
        (∀ only, b.tagsNamed name = [only] → only ∉ b₀.tree.top) ∧ b.tree.nodes.size ≤ id ∧
          b'.tree.top = b.others name ++ [id]) := by
  intro b₀ b c
  have hread : b₀ = read rules declaration? (raw?.getD []) :=
    ofComment_eq_read rules declaration? raw?
  obtain ⟨_, _, h₀⟩ := exists_unedited rules declaration? raw?
  have hderives : Derives b₀ b := derives_act h₀ as
  have hlayered : b.tree.Layered := layered_act h₀.forest.layered as
  have hrules : b.rules = rules := by
    rw [hderives.rules, hread]
    rfl
  have hself := bareName_eq_self hbare
  have hcheck := checkName_bareName hname hbare
  have htag : checkTag name payload = .ok (bareName name) := by
    simp only [checkTag, hname, hpayload]
    rfl
  have htags : b.tagsNamed (bareName name) = b.tagsNamed name := by
    rw [tagsNamed, tagsNamed, hself]
  have hout := outcome_replaceTag b name payload
  simp only [htag, htags, outcome_replaceTags b hpayload, hcheck, rules_dropTags, hrules] at hout
  obtain ⟨hreplaced, hnew, htop⟩ :=
    replaced_pushTag hlayered name (rules.resolve (bareName name) (trim payload))
  split at hout
  · next only hsole =>
    have hmem := (mem_tagsNamed (hsole ▸ List.mem_singleton_self only)).1
    have hsynthesized := hderives.isSynthesized_iff h₀ hmem
    split_ifs at hout with hmade
    · refine ⟨_, _, hout, hreplaced, .inr ⟨fun id hid => ?_, hnew, htop⟩⟩
      obtain rfl : only = id := (List.cons.inj (hsole.symm.trans hid)).1
      exact hsynthesized.1 hmade
    · refine ⟨_, _, hout, replaced_rereadTag hlayered hsole _,
        .inl ⟨hsole, ?_, top_rereadTag _ _ _ _⟩⟩
      by_contra hnot
      exact hmade (hsynthesized.2 hnot)
  · next hnot =>
    exact ⟨_, _, hout, hreplaced, .inr ⟨fun id hid => absurd hid (hnot id), hnew, htop⟩⟩

/-- A method whose parameter has been listed twice is still replaced where it stands. -/
theorem replaceTag_act_method :
    let b₀ := ofComment .standard none (some "/** A.\n * @method f(int $a) */".toList)
    let b := b₀.act [.change 2 (.keep [0, 0])]
    checkName "@method".toList = .ok (bareName "@method".toList) ∧
      (bareName "@method".toList).head? ≠ some '@' ∧ checkContent "g()".toList = .ok () ∧
      b.tree.fragments 2 = [1, 1] ∧
      ∃ b', outcome (replaceTag "@method".toList "g()".toList) b = (.ok 2, b') ∧
        b'.tagsNamed "@method".toList = [2] ∧ b'.tree.top = [0, 2] ∧ Keeps b b' 0 := by
  intro b₀ b
  have hname : checkName "@method".toList = .ok (bareName "@method".toList) := by rfl
  have hbare : (bareName "@method".toList).head? ≠ some '@' := by decide
  have hpayload : checkContent "g()".toList = .ok () := by rfl
  have hsole : b.tagsNamed "@method".toList = [2] := by decide +kernel
  have htop : b₀.tree.top = [0, 2] ∧ b.tree.top = [0, 2] := by decide +kernel
  have hother : 0 ∈ b.others "@method".toList := by decide +kernel
  obtain ⟨id, b', hout, hreplaced, hplace⟩ := replaceTag_act .standard none
    (some "/** A.\n * @method f(int $a) */".toList) [.change 2 (.keep [0, 0])] hname hbare hpayload
  obtain ⟨hid, -, htop'⟩ | ⟨hnot, -⟩ := hplace
  · obtain rfl : 2 = id := (List.cons.inj (hsole.symm.trans hid)).1
    exact ⟨hname, hbare, hpayload, by decide +kernel, b', hout, hreplaced.tagsNamed,
      htop'.trans htop.2, hreplaced.keeps 0 hother⟩
  · refine absurd ?_ (hnot 2 hsole)
    change 2 ∈ b₀.tree.top
    rw [htop.1]
    decide

end Block

end DocComment
