import DocComment.Proofs.Block.State
import DocComment.Proofs.Text.Trim
import DocComment.Proofs.Tree.Written

/-!
# What edits of tags leave

A run that adds, replaces and removes tags leaves nodes of two kinds: those that were not touched,
which say what was read, and tags that were made for a payload of the run (`edited_run`). If the
names and payloads of the run fit on lines of a comment, the written form of such a tag is read as
the tag (`Node.Content.Reloads`).
-/

namespace DocComment

open Text Token

/-- A tag that can be written on lines of a comment, and is what its written form is read as. -/
def Node.Content.Reloads (rules : Rules) (c : Node.Content) : Prop :=
  ∃ (name : Text) (r : Reading), c = r.content name ∧ IsTagName name ∧
    Writable false (r.write rules.types) ∧
    (rules.resolve name (r.write rules.types)).content name = r.content name

namespace Node.Content.Reloads

variable {rules : Rules} {c : Node.Content} {ls : Text} (h : c.Reloads rules)

include h

lemma isNode (hrules : rules.IsUsual) (hls : IsLineStart false ls) :
    Part.IsNode rules (joinLines ls (c.write rules.types)) c := by
  obtain ⟨name, r, rfl, hname, hr, hkeeps⟩ := h
  exact isNode_written hls hrules hname hr hkeeps

/-- A tag starts with its marker. -/
lemma marker (ls : Text) : (joinLines ls (c.write rules.types)).head? = some '@' ∧
    ∀ i, ∃ t ∈ (scanFrom false i (joinLines ls (c.write rules.types))).head?, t.kind = .marker := by
  obtain ⟨name, r, rfl, hname, hr, -⟩ := h
  rw [Reading.write_content]
  exact marker_written ls hname hr

end Node.Content.Reloads

namespace Block

/-! ### Edits of tags -/

/-- A payload whose lines but the first neither are decorated nor start a tag, and none of whose
lines is empty. -/
def IsPayload (s : Text) : Prop :=
  s = [] ∨ '\r' ∉ s ∧ (∀ line ∈ splitOn '\n' s, line ≠ []) ∧ ∀ line ∈ (splitOn '\n' s).tail,
    line.head?.any (fun c => isBlank c || c = '*') = false ∧ startsTag line = false

instance (s : Text) : Decidable (IsPayload s) := by
  unfold IsPayload
  infer_instance

/-- A payload is read as the same again after it has been written. -/
def IsStable (rules : Rules) (name payload : Text) : Prop :=
  let r := rules.resolve name payload
  (rules.resolve name (r.write rules.types)).content name = r.content name

instance (rules : Rules) (name payload : Text) : Decidable (IsStable rules name payload) := by
  unfold IsStable
  infer_instance

namespace Operation

/-- An operation that adds or replaces a tag which fits on lines of a comment, or removes tags. -/
def EditsTags : Operation → Prop
  | .addTag name payload | .replaceTag name payload => IsTagName name ∧ IsPayload (trim payload)
  | .removeTags _ => True
  | _ => False

instance : DecidablePred EditsTags
  | .addTag name payload | .replaceTag name payload =>
    inferInstanceAs (Decidable (IsTagName name ∧ IsPayload (trim payload)))
  | .removeTags _ => .isTrue trivial
  | .addProse _ | .markChanged _ | .changeReturnType _ | .changeVarType _ | .changeParamType _ _ =>
    .isFalse id

/-- An operation whose payload, if it has one, is read as the same again. -/
def IsStable (rules : Rules) : Operation → Prop
  | .addTag name payload | .replaceTag name payload => Block.IsStable rules name (trim payload)
  | _ => True

instance (rules : Rules) : DecidablePred (Operation.IsStable rules)
  | .addTag name payload | .replaceTag name payload =>
    inferInstanceAs (Decidable (Block.IsStable rules name (trim payload)))
  | .addProse _ | .removeTags _ | .markChanged _ | .changeReturnType _ | .changeVarType _
  | .changeParamType _ _ => .isTrue trivial

/-- Without rules every payload is kept as it is. -/
lemma isStable_empty (types : TypeSyntax) (o : Operation) :
    Operation.IsStable (Rules.empty types) o := by
  cases o with
  | addTag name payload => rfl
  | replaceTag name payload => rfl
  | _ => trivial

end Operation

lemma checkContent_of_closes {s : Text} (h : closes s = false) : checkContent s = .ok () := by
  rw [checkContent, contains_closing, h]
  rfl

/-- What is accepted does not close the comment, nor does it less what stands around it. -/
lemma closes_trim {s : Text} (h : checkContent s = .ok ()) : closes (trim s) = false := by
  unfold checkContent at h
  split_ifs at h with hclosing
  exact closes_eq_false_of_isInfix (trim_isInfix s) (by simpa [contains_closing] using hclosing)

/-- A payload that is accepted can be written on lines of a comment. -/
lemma writable_trim {payload : Text} (h : IsPayload (trim payload))
    (hcheck : checkContent payload = .ok ()) : Writable false (trim payload) := by
  obtain ⟨-, -, -, hhead, hlast⟩ := exists_trim payload
  refine ⟨?_, fun c hc => isBlank_of_isWhiteSpace (hhead c hc), fun c hc =>
    isBlank_of_isWhiteSpace (hlast c hc)⟩
  rcases h with h | ⟨hr, hne, hlines⟩
  · rw [h]
    rfl
  · refine keepsLines_of_splitOn hr (closes_trim hcheck) ?_
    intro line hline
    obtain ⟨hdecorated, htag⟩ := hlines line hline
    have hmem := List.mem_of_mem_tail hline
    cases line with
    | nil => exact absurd rfl (hne [] hmem)
    | cons c line =>
      have hn : c ≠ '\n' := fun hc => not_mem_of_mem_splitOn _ hmem (hc ▸ List.mem_cons_self)
      rw [List.head?_cons, Option.any_some, Bool.or_eq_false_iff,
        decide_eq_false_iff_not] at hdecorated
      rw [continues_iff]
      exact ⟨⟨c, rfl, hdecorated.1, hn, fun _ => hdecorated.2⟩, htag⟩

/-- The tag of an accepted payload is read again. -/
lemma reloads_resolve {rules : Rules} (hrules : rules.IsUsual) {name payload : Text}
    (hname : IsTagName name) (h : IsPayload (trim payload))
    (hstable : IsStable rules name (trim payload)) (hcheck : checkContent payload = .ok ()) :
    ((rules.resolve name (trim payload)).content name).Reloads rules :=
  ⟨name, _, rfl, hname, hrules.writable_write name (writable_trim h hcheck), hstable⟩

lemma isWhiteSpace_of_isTagNameChar {c : Char} (h : isTagNameChar c) : isWhiteSpace c = false := by
  simp only [isTagNameChar, Bool.or_eq_true, decide_eq_true_eq] at h
  rcases h with (((h | rfl) | rfl) | rfl) | rfl
  · exact isWhiteSpace_of_isAlphanum h
  all_goals rfl

/-- Only a marker is taken from a name. -/
lemma bareName_eq_self {name : Text} (h : name.head? ≠ some '@') : bareName name = name := by
  cases name with
  | nil => rfl
  | cons c name =>
    have hc : '@' ≠ c := fun he => h (congrArg some he.symm)
    simp [bareName, dropPrefix?, hc]

/-- A tag name has no marker in front. -/
lemma bareName_of_isTagName {name : Text} (h : IsTagName name) : bareName name = name := by
  obtain ⟨c, hc, hstart⟩ := h.head?
  refine bareName_eq_self fun hat => ?_
  obtain rfl : c = '@' := Option.some.inj (hc.symm.trans hat)
  exact absurd hstart (by decide)

/-- A name is accepted if it is one word that does not close the comment. -/
lemma checkName_eq_ok_iff {name n : Text} : checkName name = .ok n ↔ n = bareName name ∧
    bareName name ≠ [] ∧ (bareName name).any isWhiteSpace = false ∧
      checkContent (bareName name) = .ok () := by
  unfold checkName
  by_cases hempty : bareName name = []
  · simp only [hempty, if_true, ne_eq, not_true_eq_false, false_and, and_false, iff_false]
    exact fun h => nomatch h
  by_cases hblank : (bareName name).any isWhiteSpace
  · simp only [hempty, hblank, if_true, if_false, Bool.true_eq_false, false_and, and_false,
      iff_false]
    exact fun h => nomatch h
  · rw [Bool.not_eq_true] at hblank
    simp only [hempty, hblank, Bool.false_eq_true, if_false, ne_eq, not_false_eq_true, true_and]
    cases checkContent (bareName name) with
    | error f => exact iff_of_false (fun h => nomatch h) fun h => nomatch h.2
    | ok u => exact ⟨fun h => ⟨(Except.ok.inj h).symm, rfl⟩, fun h => congrArg Except.ok h.1.symm⟩

/-- What is left of a name that is accepted is accepted, if no second marker is in front. -/
lemma checkName_bareName {name : Text} (hname : checkName name = .ok (bareName name))
    (hbare : (bareName name).head? ≠ some '@') :
    checkName (bareName name) = .ok (bareName name) := by
  rw [checkName_eq_ok_iff, bareName_eq_self hbare]
  exact ⟨rfl, (checkName_eq_ok_iff.1 hname).2⟩

/-- A tag name is accepted, with a marker in front or without. -/
lemma checkName_of_isTagName {name : Text} (h : IsTagName (bareName name)) :
    checkName name = .ok (bareName name) := by
  refine checkName_eq_ok_iff.2 ⟨rfl, ?_, ?_, ?_⟩
  · obtain ⟨c, hc, -⟩ := h.head?
    intro hnil
    rw [hnil] at hc
    cases hc
  · rw [List.any_eq_false]
    intro d hd
    rw [isWhiteSpace_of_isTagNameChar (h.isTagNameChar d hd)]
    exact Bool.false_ne_true
  · have hslash : '/' ∉ bareName name := fun hmem => absurd (h.isTagNameChar _ hmem) (by decide)
    exact checkContent_of_closes (closes_eq_false_of_not_mem hslash)

/-- Only the marker in front is taken from a name that is accepted. -/
lemma eq_of_checkName {name n : Text} (h : checkName name = .ok n) : n = bareName name :=
  (checkName_eq_ok_iff.1 h).1

lemma eq_of_checkTag {name payload n : Text} (h : checkTag name payload = .ok n) :
    n = bareName name ∧ checkContent payload = .ok () :=
  (checks_of_checkTag h).imp_left eq_of_checkName

/-! ### Edits that are accepted -/

section

variable {b b' : Block} {id : NodeId}

/-- A tag that is added has the bare name, and says what its content is resolved to. -/
lemma pushTag_of_addTag {name payload : Text} (h : outcome (addTag name payload) b = (.ok id, b')) :
    checkName name = .ok (bareName name) ∧ checkContent payload = .ok () ∧
      b.pushTag (bareName name) (b.rules.resolve (bareName name) (trim payload)) = (b', id) := by
  rw [outcome_addTag] at h
  cases hcheck : checkTag name payload with
  | error f =>
    rw [hcheck] at h
    cases h
  | ok n =>
    rw [hcheck] at h
    obtain ⟨hname, hpayload⟩ := checks_of_checkTag hcheck
    obtain rfl := eq_of_checkName hname
    obtain ⟨hid, hblock⟩ := Prod.mk.inj h
    exact ⟨hname, hpayload, Prod.ext hblock (Except.ok.inj hid)⟩

/-- Text that is added is there, and stands as a paragraph of its own. -/
lemma pushProse_of_addProse {text : Text} (h : outcome (addProse text) b = (.ok id, b')) :
    trim text ≠ [] ∧ checkContent text = .ok () ∧ b.pushProse (trim text) = (b', id) := by
  rw [outcome_addProse] at h
  by_cases hne : trim text = []
  · rw [if_pos hne] at h
    cases h
  rw [if_neg hne] at h
  cases hcheck : checkContent text with
  | error f =>
    rw [hcheck] at h
    cases h
  | ok u =>
    rw [hcheck] at h
    obtain ⟨hid, hblock⟩ := Prod.mk.inj h
    exact ⟨hne, rfl, Prod.ext hblock (Except.ok.inj hid)⟩

end

/-! ### The nodes after a run -/

/-- What edits of tags leave of a block `b₀`: nodes that say what they said, and tags of which
`good` holds. -/
structure Edited (good : Node.Content → Prop) (b₀ b : Block) : Prop where
  derives : Derives b₀ b
  forest : b.tree.Forest
  content? : ∀ id ∈ b.tree.top,
    (b.tree.isModified id = false ∧ b.tree.content? id = b₀.tree.content? id) ∨
      b.tree.isModified id ∧ ∃ c, b.tree.content? id = some c ∧ good c

lemma rules_dropTags (b : Block) (name : Text) : (b.dropTags name).1.rules = b.rules := by
  unfold dropTags
  dsimp only
  split_ifs <;> rfl

namespace Edited

variable {good : Node.Content → Prop} {b₀ b : Block}

protected lemma refl {spans : List Span} {cs : List Node.Content} (h : b.tree.Unedited spans cs) :
    Edited good b b where
  derives := Derives.refl h.isSynthesized
  forest := h.forest
  content? id _ := .inl ⟨by simp [Tree.isModified, h.isChanged, h.isSynthesized], rfl⟩

/-- A node that an edit leaves alone stays what it is. -/
lemma content?_of_keeps (h : Edited good b₀ b) {b' : Block} {id : NodeId} (hid : id ∈ b.tree.top)
    (hk : Keeps b b' id) :
    (b'.tree.isModified id = false ∧ b'.tree.content? id = b₀.tree.content? id) ∨
      b'.tree.isModified id ∧ ∃ c, b'.tree.content? id = some c ∧ good c := by
  rw [hk.isModified, hk.content?]
  exact h.content? id hid

lemma pushTag (h : Edited good b₀ b) {name : Text} {r : Reading} (hr : good (r.content name)) :
    Edited good b₀ (b.pushTag name r).1 where
  derives := h.derives.step (Step.pushTag (p := fun _ => True) b name r)
  forest := forest_step h.forest (Step.pushTag (p := fun _ => True) b name r)
  content? id hid := by
    rw [Block.pushTag, Tree.top_push, Tree.top_markSynthesized, Tree.top_makeTag,
      List.mem_append, List.mem_singleton] at hid
    rcases hid with hid | rfl
    · exact h.content?_of_keeps hid (keeps_pushTag name r h.forest.layered hid)
    · exact .inr ⟨isModified_of_isSynthesized (by simp [Block.pushTag, Tree.markSynthesized]),
        _, content?_pushTag name r b, hr⟩

lemma dropTags (h : Edited good b₀ b) (name : Text) : Edited good b₀ (b.dropTags name).1 where
  derives := h.derives.step (Step.dropTags (p := fun _ => True) b name)
  forest := forest_step h.forest (Step.dropTags (p := fun _ => True) b name)
  content? id hid := by
    refine h.content?_of_keeps ?_ (keeps_dropTags name b id)
    revert hid
    unfold Block.dropTags
    dsimp only
    split_ifs
    · exact fun hid => hid
    · exact fun hid => List.mem_of_mem_filter hid

lemma rereadTag (h : Edited good b₀ b) {id : NodeId} {n : Node} {name : Text} {r : Reading}
    (htop : id ∈ b.tree.top) (hnode : b.tree.node? id = some n) (htag : n.tagName?.isSome)
    (hread : b.tree.attributes.isSynthesized id = false) (hr : good (r.content name)) :
    Edited good b₀ (b.rereadTag id name r) where
  derives := h.derives.step
    (Step.rereadTag (p := fun _ => True) name r htop hnode htag hread trivial)
  forest := forest_step h.forest
    (Step.rereadTag (p := fun _ => True) name r htop hnode htag hread trivial)
  content? i hi := by
    rw [top_rereadTag] at hi
    by_cases hne : i = id
    · subst hne
      have hcontent := content?_rereadTag name r (h.forest.lt_size_of_mem_top htop)
      -- A tag that reads as before is as it was.
      by_cases hsame : b.rereadTag i name r = b
      · rw [hsame]
        exact h.content? i htop
      · exact .inr ⟨isModified_rereadTag hsame, _, hcontent, hr⟩
    · exact h.content?_of_keeps hi (keeps_rereadTag name r h.forest.layered htop hi hne)

/-- The tags of a name are replaced by one that is good. -/
lemma replaceTag (h : Edited good b₀ b) {name payload n : Text}
    (hcheck : checkTag name payload = .ok n) (hn : IsTagName n)
    (hgood : good ((b.rules.resolve n (trim payload)).content n)) :
    Edited good b₀ (outcome (Block.replaceTag name payload) b).2 := by
  obtain ⟨-, hpayload⟩ := checks_of_checkTag hcheck
  have hreplace : Edited good b₀ (outcome (replaceTags n payload) b).2 := by
    have hbare := bareName_of_isTagName hn
    rw [outcome_replaceTags b hpayload, checkName_of_isTagName (hbare.symm ▸ hn), hbare]
    exact (h.dropTags n).pushTag (by rwa [rules_dropTags])
  rw [outcome_replaceTag, hcheck]
  dsimp only
  split
  · next only htags =>
    split_ifs with hnew
    · exact hreplace
    · obtain ⟨htop, m, hm, htag⟩ := mem_tagsNamed (htags ▸ List.mem_singleton_self only)
      exact h.rereadTag htop hm (by simp [htag]) (by simpa using hnew) hgood
  · exact hreplace

end Edited

variable {b₀ b : Block} {rules : Rules}

/-- An edit of tags leaves what was read, and tags that are read again. -/
lemma Edited.apply (hrules : rules.IsUsual) (h : Edited (·.Reloads rules) b₀ b)
    (hb : b.rules = rules) {o : Operation} (ho : o.EditsTags) (hstable : o.IsStable rules) :
    Edited (·.Reloads rules) b₀ (o.apply b).2 := by
  subst hb
  cases o with
  | addTag name payload =>
    rw [Operation.apply, Operation.edit, outcome_map, outcome_addTag]
    cases hcheck : checkTag name payload with
    | error f => exact h
    | ok n =>
      obtain ⟨hn, hpayload⟩ := eq_of_checkTag hcheck
      rw [hn, bareName_of_isTagName ho.1]
      exact h.pushTag (reloads_resolve hrules ho.1 ho.2 hstable hpayload)
  | removeTags name =>
    rw [Operation.apply, Operation.edit, outcome_map, outcome_removeTags]
    cases checkName name with
    | error f => exact h
    | ok n => exact h.dropTags n
  | replaceTag name payload =>
    rw [Operation.apply, Operation.edit, outcome_map]
    cases hcheck : checkTag name payload with
    | error f =>
      rw [outcome_replaceTag, hcheck]
      exact h
    | ok n =>
      obtain ⟨hn, hpayload⟩ := eq_of_checkTag hcheck
      rw [bareName_of_isTagName ho.1] at hn
      subst hn
      exact h.replaceTag hcheck ho.1 (reloads_resolve hrules ho.1 ho.2 hstable hpayload)
  | addProse _ => exact ho.elim
  | markChanged _ => exact ho.elim
  | changeReturnType _ => exact ho.elim
  | changeVarType _ => exact ho.elim
  | changeParamType _ _ => exact ho.elim

/-- After edits of tags a comment has nodes that were read and not touched, and tags that are read
again. -/
theorem edited_run (hrules : rules.IsUsual) (declaration? : Option Nat) (raw : Text)
    {os : List Operation} (hos : ∀ o ∈ os, o.EditsTags) (hstable : ∀ o ∈ os, o.IsStable rules) :
    Edited (·.Reloads rules) (read rules declaration? raw)
      ((read rules declaration? raw).run os) := by
  suffices h : ∀ b, Edited (·.Reloads rules) (read rules declaration? raw) b →
      Edited (·.Reloads rules) (read rules declaration? raw) (b.run os) from
    h _ (Edited.refl (Tree.unedited_ofTokens rules (scan raw)))
  induction os with
  | nil => exact fun b h => h
  | cons o os ih =>
    intro b h
    exact ih (fun o ho => hos o (List.mem_cons_of_mem _ ho))
      (fun o ho => hstable o (List.mem_cons_of_mem _ ho)) _
      (h.apply hrules h.derives.rules (hos o List.mem_cons_self) (hstable o List.mem_cons_self))

end Block

end DocComment
