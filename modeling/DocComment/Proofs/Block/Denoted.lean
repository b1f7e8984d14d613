import DocComment.Proofs.Block.Replaced

/-!
# The tags that a name denotes

A name of tags may be given with an `@` in front, which is not part of it. Finding, removing and
adding tags drop it once, so tags are removed under the name under which they are found, and found
under the name under which they were added. Replacing tags drops an `@` from the name of the new
tag, and one more where it looks for the tags that make way for it. So it agrees with the other
edits on the tags that a name denotes just if there is no second `@` (`denoted_act_iff`).
-/

namespace DocComment.Block

open Text

variable {b b' : Block} {name payload : Text} {id : NodeId}

/-! ### Finding and removing -/

lemma mem_tagsNamed_iff : id ∈ b.tagsNamed name ↔
    id ∈ b.tree.top ∧ (b.tree.node? id).any (isTagNamed (bareName name)) := by
  rw [tagsNamed_eq_filter, List.mem_filter]

/-- The tags that are removed are those that are found. -/
lemma dropTags_snd (b : Block) (name : Text) :
    (b.dropTags (bareName name)).2 = b.tagsNamed name := by
  rw [tagsNamed_eq_filter]
  unfold dropTags
  dsimp only
  split_ifs with hnone
  · exact hnone.symm
  · rfl

lemma others_eq_filter (b : Block) (name : Text) :
    b.others name = b.tree.top.filter (· ∉ b.tagsNamed name) := by
  refine List.filter_congr fun id hid => ?_
  simp [mem_tagsNamed_iff, hid]

/-- The block `b'` is `b` without the tags that the name denotes. -/
structure Removed (b b' : Block) (name : Text) : Prop where
  top : b'.tree.top = b.tree.top.filter (· ∉ b.tagsNamed name)
  nodes : b'.tree.nodes = b.tree.nodes
  attributes : b'.tree.attributes = b.tree.attributes

lemma removed_dropTags (b : Block) (name : Text) :
    Removed b (b.dropTags (bareName name)).1 name := by
  refine ⟨(top_dropTags b name).trans (others_eq_filter b name), ?_, ?_⟩
  all_goals
    unfold dropTags
    dsimp only
    split_ifs <;> rfl

/-! ### Adding -/

/-- A tag that is added is found behind those that were there. -/
lemma tagsNamed_pushTag (h : b.tree.Layered) (name : Text) (r : Reading) :
    (b.pushTag (bareName name) r).1.tagsNamed name =
      b.tagsNamed name ++ [(b.pushTag (bareName name) r).2] := by
  have htop : (b.pushTag (bareName name) r).1.tree.top =
      b.tree.top ++ [(b.pushTag (bareName name) r).2] := by
    simp [pushTag]
  have hnew := isTagNamed_of_content? (content?_pushTag (bareName name) r b)
  rw [tagsNamed_eq_filter, tagsNamed_eq_filter, htop, List.filter_append]
  congr 1
  · refine List.filter_congr fun id hid => ?_
    rw [(keeps_pushTag (bareName name) r h hid).node? id List.mem_cons_self]
  · exact List.filter_cons_of_pos hnew

/-! ### Replacing -/

/-- In the block `b'` the name denotes the tag `id` alone, and the nodes that it does not denote in
`b` are as they were. -/
structure ReplacesOnly (b b' : Block) (name : Text) (id : NodeId) : Prop where
  tagsNamed : b'.tagsNamed name = [id]
  keeps : ∀ i ∈ b.tree.top, i ∉ b.tagsNamed name → i ∈ b'.tree.top ∧ Keeps b b' i

lemma Replaced.replacesOnly {c : Node.Content} (h : Replaced b b' name c id) :
    ReplacesOnly b b' name id where
  tagsNamed := h.tagsNamed
  keeps i hi hnot := by
    have hother : i ∈ b.others name := by
      rw [others_eq_filter, List.mem_filter]
      exact ⟨hi, by simpa using hnot⟩
    refine ⟨?_, h.keeps i hother⟩
    rw [← h.others] at hother
    exact (mem_others.1 hother).1

section

variable (h : b.tree.Layered) (hname : checkName name = .ok (bareName name))
  (hbare : (bareName name).head? ≠ some '@') (hpayload : checkContent payload = .ok ())

include hname hbare hpayload

/-- Without a second `@` the only tag of the name is read anew where it stands, if it was read from
the comment, and else all tags of the name make way for one at the end. -/
lemma replaceTag_cases (b : Block) :
    let r := b.rules.resolve (bareName name) (trim payload)
    let b' := (b.dropTags (bareName name)).1.pushTag (bareName name) r
    (∃ only, b.tagsNamed name = [only] ∧ b.tree.attributes.isSynthesized only = false ∧
      outcome (replaceTag name payload) b = (.ok only, b.rereadTag only (bareName name) r)) ∨
    (∀ only, b.tagsNamed name = [only] → b.tree.attributes.isSynthesized only) ∧
      outcome (replaceTag name payload) b = (.ok b'.2, b'.1) := by
  intro r b'
  have hself := bareName_eq_self hbare
  have hcheck := checkName_bareName hname hbare
  have htags : b.tagsNamed (bareName name) = b.tagsNamed name := by
    rw [tagsNamed, tagsNamed, hself]
  have hout := outcome_replaceTag b name payload
  simp only [checkTag_eq_ok hname hpayload, htags, outcome_replaceTags b hpayload, hcheck,
    rules_dropTags] at hout
  split at hout
  · next only hsole =>
    split_ifs at hout with hmade
    · refine .inr ⟨fun id hid => ?_, hout⟩
      obtain rfl : only = id := (List.cons.inj (hsole.symm.trans hid)).1
      exact hmade
    · exact .inl ⟨only, hsole, by simpa using hmade, hout⟩
  · next hnot => exact .inr ⟨fun id hid => absurd hid (hnot id), hout⟩

include h

lemma exists_replacesOnly :
    ∃ id b', outcome (replaceTag name payload) b = (.ok id, b') ∧ ReplacesOnly b b' name id := by
  rcases replaceTag_cases hname hbare hpayload b with ⟨only, hsole, -, hout⟩ | ⟨-, hout⟩
  · exact ⟨_, _, hout, (replaced_rereadTag h hsole _).replacesOnly⟩
  · exact ⟨_, _, hout, (replaced_pushTag h name _).1.replacesOnly⟩

end

/-- A node has one name at most. -/
lemma eq_of_isTagNamed {n? : Option Node} {m n : Text} (hm : n?.any (isTagNamed m))
    (hn : n?.any (isTagNamed n)) : m = n := by
  cases n? with
  | none => cases hm
  | some node =>
    rw [Option.any_some, isTagNamed, decide_eq_true_eq] at hm hn
    exact Option.some.inj (hm.symm.trans hn)

/-- A tag at the end has the name that was asked for. -/
lemma isTagNamed_of_replaceTags (hpayload : checkContent payload = .ok ())
    (hout : outcome (replaceTags name payload) b = (.ok id, b')) :
    (b'.tree.node? id).any (isTagNamed (bareName name)) := by
  rw [outcome_replaceTags b hpayload] at hout
  cases hname : checkName name with
  | error f => simp [hname] at hout
  | ok n =>
    obtain rfl := eq_of_checkName hname
    simp only [hname, Prod.mk.injEq, Except.ok.injEq] at hout
    obtain ⟨rfl, rfl⟩ := hout
    exact isTagNamed_of_content? (content?_pushTag _ _ _)

/-- Behind a second `@` the tags that make way are those of the name without it, and the new tag, if
it is not read in the place of the old one, has that name too. -/
lemma not_replacesOnly (hbare : (bareName name).head? = some '@')
    (hout : outcome (replaceTag name payload) b = (.ok id, b')) :
    ¬ ReplacesOnly b b' name id := by
  intro hreplaced
  have hne : bareName (bareName name) ≠ bareName name := by
    obtain ⟨rest, hrest⟩ := List.head?_eq_some_iff.1 hbare
    rw [hrest]
    exact fun h => List.cons_ne_self '@' rest h.symm
  have hnew : (b'.tree.node? id).any (isTagNamed (bareName name)) :=
    (mem_tagsNamed_iff.1 (hreplaced.tagsNamed ▸ List.mem_singleton_self id)).2
  rw [outcome_replaceTag] at hout
  cases hcheck : checkTag name payload with
  | error f =>
    rw [hcheck] at hout
    cases hout
  | ok n =>
    obtain ⟨rfl, hpayload⟩ := eq_of_checkTag hcheck
    have hadded (h : outcome (replaceTags (bareName name) payload) b = (.ok id, b')) : False :=
      hne (eq_of_isTagNamed (isTagNamed_of_replaceTags hpayload h) hnew)
    simp only [hcheck] at hout
    split at hout
    · next only hsole =>
      split_ifs at hout
      · exact hadded hout
      · -- The tag that is read anew has the name without the second marker.
        obtain ⟨rfl, rfl⟩ : only = id ∧ _ = b' := by simpa using hout
        have hold := mem_tagsNamed_iff.1 (hsole ▸ List.mem_singleton_self only)
        have hother : only ∉ b.tagsNamed name := fun hmem =>
          hne (eq_of_isTagNamed hold.2 (mem_tagsNamed_iff.1 hmem).2)
        have hkeeps := (hreplaced.keeps only hold.1 hother).2
        rw [hkeeps.node? only List.mem_cons_self] at hnew
        exact hne (eq_of_isTagNamed hold.2 hnew)
    · exact hadded hout

/-! ### What a name denotes -/

/-- Whatever has been done to a block, the tags that are removed under a name are those that it
denotes, and a tag that is added under the name is denoted by it. Replacing agrees with this just if
the name has no second `@`. -/
theorem denoted_act_iff (rules : Rules) (declaration? : Option Nat) (raw? : Option Text)
    (as : List Action) {name n : Text} (hname : checkName name = .ok n) :
    let b := (ofComment rules declaration? raw?).act as
    (∃ b', outcome (removeTags name) b = (.ok (b.tagsNamed name).length, b') ∧
      Removed b b' name) ∧
    ∀ payload, checkContent payload = .ok () →
      (∃ id b', outcome (addTag name payload) b = (.ok id, b') ∧
        b'.tagsNamed name = b.tagsNamed name ++ [id]) ∧
      ((∃ id b', outcome (replaceTag name payload) b = (.ok id, b') ∧
        ReplacesOnly b b' name id) ↔ n.head? ≠ some '@') := by
  intro b
  obtain rfl := eq_of_checkName hname
  obtain ⟨_, _, h₀⟩ := exists_unedited rules declaration? raw?
  have hlayered : b.tree.Layered := layered_act h₀.forest.layered as
  refine ⟨?_, fun payload hpayload =>
    ⟨?_, fun ⟨id, b', hout, hreplaced⟩ hat => ?_, fun hbare => ?_⟩⟩
  · have hout := outcome_removeTags b name
    simp only [hname, dropTags_snd] at hout
    exact ⟨_, hout, removed_dropTags b name⟩
  · have hout := outcome_addTag b name payload
    simp only [checkTag_eq_ok hname hpayload] at hout
    exact ⟨_, _, hout, tagsNamed_pushTag hlayered name _⟩
  · exact not_replacesOnly hat hout hreplaced
  · exact exists_replacesOnly hlayered hname hbare hpayload

/-- The name `@a` denotes the tags `a`, also one that was added as `@a`. -/
theorem denoted_act_marker :
    let b := (ofComment .standard none (some "/** @a x\n * @b y */".toList)).act
      [.edit (.addTag "@a".toList "z".toList)]
    checkName "@a".toList = .ok "a".toList ∧ checkContent "w".toList = .ok () ∧
      b.tagsNamed "@a".toList = [0, 2] ∧
      (∃ b', outcome (removeTags "@a".toList) b = (.ok 2, b') ∧ b'.tree.top = [1]) ∧
      ∃ id b', outcome (replaceTag "@a".toList "w".toList) b = (.ok id, b') ∧
        b'.tagsNamed "@a".toList = [id] ∧ 1 ∈ b'.tree.top := by
  intro b
  have hname : checkName "@a".toList = .ok "a".toList := by rfl
  have hpayload : checkContent "w".toList = .ok () := by rfl
  have htags : b.tagsNamed "@a".toList = [0, 2] := by decide +kernel
  have htop : b.tree.top = [0, 1, 2] := by decide +kernel
  have hother : 1 ∈ b.tree.top ∧ 1 ∉ b.tagsNamed "@a".toList := by decide +kernel
  obtain ⟨⟨b₁, hremove, hremoved⟩, hput⟩ := denoted_act_iff .standard none
    (some "/** @a x\n * @b y */".toList) [.edit (.addTag "@a".toList "z".toList)] hname
  change outcome (removeTags "@a".toList) b = _ at hremove
  change Removed b b₁ _ at hremoved
  obtain ⟨-, hreplace⟩ := hput "w".toList hpayload
  obtain ⟨id, b₂, hout, hreplaces⟩ := hreplace.2 (by decide)
  change ReplacesOnly b b₂ _ _ at hreplaces
  refine ⟨hname, hpayload, htags, ⟨b₁, ?_, ?_⟩, id, b₂, hout, hreplaces.tagsNamed, ?_⟩
  · rw [hremove, htags]
    rfl
  · rw [hremoved.top, htags, htop]
    decide
  · exact (hreplaces.keeps 1 hother.1 hother.2).1

/-- The name `@@a` denotes no tag, and is accepted; but the tag `a` is replaced under it. -/
theorem not_replacesOnly_second_marker :
    let b := read .standard none "/** @a x */".toList
    checkName "@@a".toList = .ok "@a".toList ∧ checkContent "y".toList = .ok () ∧
      b.tagsNamed "@@a".toList = [] ∧
      (outcome (replaceTag "@@a".toList "y".toList) b).1 = .ok 0 ∧
      (outcome (replaceTag "@@a".toList "y".toList) b).2.tree.node? 0 =
        some (.tag "@a".toList (.generic "y".toList)) ∧
      ¬ ∃ id b', outcome (replaceTag "@@a".toList "y".toList) b = (.ok id, b') ∧
        ReplacesOnly b b' "@@a".toList id := by
  refine ⟨by rfl, by rfl, by decide +kernel, by decide +kernel, by decide +kernel, ?_⟩
  rintro ⟨id, b', hout, hreplaces⟩
  exact not_replacesOnly (by decide) hout hreplaces

end DocComment.Block
