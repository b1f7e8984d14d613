import DocComment.Command.Edit
import DocComment.Proofs.Block.Edited
import DocComment.Proofs.Block.Named

/-!
# The edits of a plan

A plan removes tags, replaces tags where they exist, and adds tags (`EditPlan.edit_eq`). What is
removed and what is added is looked at in every comment, so a plan in which such an argument is
rejected fails for all comments (`EditPlan.fails_edit`). What is replaced is looked at only where
there is a tag of the name. A tag that was read has a name that is accepted, so if all else is
accepted the plan fails for the sake of a payload (`EditPlan.exists_of_edit_eq_error`).
-/

namespace DocComment

open Text Token

namespace Block

/-! ### Edits one after the other -/

/-- An edit of blocks in `P` leaves blocks in `R`, and fails only for causes in `Q`. -/
def Edit.Meets {α : Type} (P : Block → Prop) (e : Edit α) (R : Block → Prop) (Q : Failure → Prop) :
    Prop :=
  ∀ b, P b → (∀ a, (outcome e b).1 = .ok a → R (outcome e b).2) ∧
    ∀ f, (outcome e b).1 = .error f → Q f

/-- An edit fails for all blocks. -/
def Edit.Fails {α : Type} (e : Edit α) : Prop := ∀ b, (outcome e b).1.isOk = false

namespace Edit

variable {α β : Type} {P R S : Block → Prop} {Q : Failure → Prop} {e : Edit α} {g : α → Edit β}

lemma Meets.bind (he : Meets P e R Q) (hg : ∀ a, Meets R (g a) S Q) : Meets P (e >>= g) S Q := by
  intro b hb
  obtain ⟨hok, herror⟩ := he b hb
  rw [outcome_bind]
  rcases hrun : outcome e b with ⟨f | a, b'⟩
  · rw [hrun] at herror
    refine ⟨fun _ h => ?_, fun f' h => ?_⟩
    · cases h
    · cases h
      exact herror f rfl
  · rw [hrun] at hok
    exact hg a b' (hok a rfl)

/-- A loop keeps what each of its edits keeps. -/
lemma Meets.forM {γ : Type} {xs : List γ} {e : γ → Edit Unit} (h : ∀ x ∈ xs, Meets P (e x) P Q) :
    Meets P (xs.forM e) P Q := by
  induction xs with
  | nil =>
    refine fun b hb => ⟨fun _ _ => hb, fun _ hf => ?_⟩
    cases hf
  | cons x xs ih =>
    exact (h x List.mem_cons_self).bind fun _ => ih fun y hy => h y (List.mem_cons_of_mem _ hy)

lemma Fails.bind_left (h : Fails e) (g : α → Edit β) : Fails (e >>= g) := by
  intro b
  have hb := h b
  rw [outcome_bind]
  rcases hrun : outcome e b with ⟨f | a, b'⟩
  · rfl
  · rw [hrun] at hb
    cases hb

lemma Fails.bind_right (h : ∀ a, Fails (g a)) (e : Edit α) : Fails (e >>= g) := by
  intro b
  rw [outcome_bind]
  rcases outcome e b with ⟨f | a, b'⟩
  · rfl
  · exact h a b'

/-- A loop fails if one of its edits does, whatever the others do before. -/
lemma Fails.forM {γ : Type} {x : γ} {xs : List γ} {e : γ → Edit Unit} (hx : x ∈ xs)
    (h : Fails (e x)) : Fails (xs.forM e) := by
  induction xs with
  | nil => cases hx
  | cons y xs ih =>
    rcases List.mem_cons.1 hx with rfl | hx
    · exact h.bind_left _
    · exact bind_right (fun _ => ih hx) _

end Edit

/-! ### Single edits -/

/-- An operation whose answer does not matter. -/
def Operation.perform (o : Operation) : Edit Unit := (fun _ => ()) <$> o.edit

lemma outcome_perform (o : Operation) (b : Block) :
    outcome o.perform b = ((o.apply b).1.map fun _ => (), (o.apply b).2) :=
  outcome_map _ _ _

/-- What an operation keeps, and for which causes it fails. -/
lemma Operation.meets_perform {o : Operation} {P R : Block → Prop} {Q : Failure → Prop}
    (hok : ∀ b, P b → R (o.apply b).2)
    (herror : ∀ b f, P b → (outcome o.perform b).1 = .error f → Q f) :
    Edit.Meets P o.perform R Q := by
  intro b hb
  refine ⟨fun _ _ => ?_, fun f => herror b f hb⟩
  rw [outcome_perform]
  exact hok b hb

lemma isOk_map {α β : Type} (f : α → β) (r : Except Failure α) : (r.map f).isOk = r.isOk := by
  cases r <;> rfl

lemma isOk_removeTags (b : Block) (name : Text) :
    (outcome (Operation.removeTags name).perform b).1.isOk = (checkName name).isOk := by
  rw [outcome_perform, isOk_map, Operation.apply, Operation.edit, outcome_map, isOk_map,
    outcome_removeTags]
  cases checkName name <;> rfl

lemma isOk_addTag (b : Block) (name payload : Text) :
    (outcome (Operation.addTag name payload).perform b).1.isOk = (checkTag name payload).isOk := by
  rw [outcome_perform, isOk_map, Operation.apply, Operation.edit, outcome_map, isOk_map,
    outcome_addTag]
  cases checkTag name payload <;> rfl

lemma checkTag_of_isTagName {name : Text} (h : IsTagName (bareName name)) (payload : Text) :
    checkTag name payload = (checkContent payload).map fun _ => bareName name := by
  rw [checkTag, checkName_of_isTagName h]
  cases checkContent payload <;> rfl

/-- Under a tag name a replacement is rejected for its payload or not at all. -/
lemma isOk_replaceTag (b : Block) {name : Text} (payload : Text) (h : IsTagName (bareName name)) :
    (outcome (Operation.replaceTag name payload).perform b).1.isOk =
      (checkContent payload).isOk := by
  rw [outcome_perform, isOk_map, Operation.apply, Operation.edit, outcome_map, isOk_map,
    outcome_replaceTag, checkTag_of_isTagName h]
  cases hpayload : checkContent payload with
  | error f => rfl
  | ok u =>
    -- The name is looked at again without its marker, and is accepted again.
    have hagain := @checkName_of_isTagName (bareName name) ((bareName_of_isTagName h).symm ▸ h)
    simp only [Except.map, outcome_replaceTags b hpayload, hagain]
    split
    · split_ifs <;> rfl
    · rfl

lemma declaration?_step {p : NodeId → Prop} {b b' : Block} (h : Step p b b') :
    b'.declaration? = b.declaration? := by
  cases h with
  | pushTag => rfl
  | pushProse => rfl
  | dropTags name =>
    unfold dropTags
    dsimp only
    split_ifs <;> rfl
  | rereadTag name r =>
    unfold rereadTag
    dsimp only
    split_ifs <;> rfl
  | retype => rfl
  | withMark => rfl

/-- A block belongs to its declaration whatever is done to it. -/
lemma declaration?_apply (b : Block) (o : Operation) :
    (o.apply b).2.declaration? = b.declaration? :=
  Steps.induction (fun hs h => (declaration?_step hs).trans h) (steps_apply b o).1 rfl

/-! ### Names of tags in edited blocks -/

/-- If this is a tag, its name is made of the characters of tag names. -/
def IsWellNamed (c : Node.Content) : Prop :=
  ∀ name ∈ c.tagName?, IsTagName name

lemma isWellNamed_content {name : Text} (h : IsTagName name) (r : Reading) :
    IsWellNamed (r.content name) := by
  intro n hn
  rw [Node.Content.tagName?_content] at hn
  cases hn
  exact h

/-- A tag is found only under names made of the characters of tag names, as long as no other tags
are added. -/
lemma Edited.isTagName_of_hasTag {rules : Rules} {declaration? : Option Nat} {raw name : Text}
    {b : Block} (h : Edited IsWellNamed (read rules declaration? raw) b)
    (htag : b.hasTag name) : IsTagName (bareName name) := by
  obtain ⟨id, hid⟩ := List.exists_mem_of_ne_nil _ (by simpa [hasTag] using htag)
  obtain ⟨htop, n, hn, hname⟩ := mem_tagsNamed hid
  have hnamed : (b.tree.node? id).any (isTagNamed (bareName name)) := by
    simpa [hn, isTagNamed] using hname
  rcases h.content? id htop with ⟨hmodified, hsame⟩ | ⟨-, c, hc, hgood⟩
  · have hc : b.tree.content? id = some (b.tree.contentOf n) := by rw [Tree.content?, hn]; rfl
    have hread : id ∈ (read rules declaration? raw).tree.top := by
      by_contra hnot
      have hunedited := Tree.unedited_ofTokens rules (scan raw)
      have hnew := (h.derives.isSynthesized_iff hunedited htop).2 hnot
      rw [isModified_of_isSynthesized hnew] at hmodified
      cases hmodified
    exact isTagName_of_content?_read hread (hsame ▸ hc) ((Tree.isTagNamed_iff hc _).1 hnamed)
  · exact hgood _ ((Tree.isTagNamed_iff hc _).1 hnamed)

end Block

namespace EditPlan

open Block

/-- A loop over edits, as a list of edits. -/
lemma forIn_eq_forM {α : Type} (e : α → Edit Unit) (xs : List α) :
    (forIn xs PUnit.unit fun x _ => do e x; pure (.yield PUnit.unit) : Edit PUnit) = xs.forM e := by
  induction xs with
  | nil => rfl
  | cons x xs ih =>
    rw [List.forIn_cons, List.forM_eq_forM, List.forM_cons, ← List.forM_eq_forM, ← ih, bind_assoc]
    simp only [pure_bind]

/-- Replaces the tags of this name by one, if there are any. -/
def replaceExisting (name payload : Text) : Edit Unit := do
  if (← get).hasTag name then (Operation.replaceTag name payload).perform

/-- The edits of a plan are operations. -/
lemma edit_eq (plan : EditPlan) : plan.edit = (do
    plan.remove.forM fun name => (Operation.removeTags name).perform
    plan.replace.forM fun (name, payload) => replaceExisting name payload
    plan.add.forM fun (name, payload) => (Operation.addTag name payload).perform) := by
  have hreplace : ∀ name payload, (do
      replaceExisting name payload
      pure (ForInStep.yield PUnit.unit) : Edit (ForInStep PUnit)) = (do
      if (← get).hasTag name then
        let _ ← Block.replaceTag name payload
        pure (ForInStep.yield PUnit.unit)
      else pure (ForInStep.yield PUnit.unit)) := by
    intro name payload
    rw [replaceExisting, bind_assoc]
    refine congrArg _ (funext fun b => ?_)
    split_ifs <;> simp [Operation.perform, Operation.edit]
  rw [← forIn_eq_forM, ← forIn_eq_forM, ← forIn_eq_forM]
  simp only [hreplace, Operation.perform, Operation.edit, Functor.map_map, bind_map_left]
  unfold EditPlan.edit
  simp

/-- What is removed and what is added is accepted. -/
structure Accepted (plan : EditPlan) : Prop where
  remove : ∀ name ∈ plan.remove, (checkName name).isOk
  add : ∀ tag ∈ plan.add, (checkTag tag.1 tag.2).isOk

/-- A plan in which something is rejected that is removed or added fails for all blocks. -/
lemma fails_edit {plan : EditPlan} (h : ¬ plan.Accepted) : plan.edit.Fails := by
  rw [edit_eq]
  by_cases hremove : ∀ name ∈ plan.remove, (checkName name).isOk
  · obtain ⟨tag, hmem, htag⟩ : ∃ tag ∈ plan.add, (checkTag tag.1 tag.2).isOk = false := by
      by_contra hall
      push Not at hall
      exact h ⟨hremove, fun tag hmem => by simpa using hall tag hmem⟩
    have hadd : (Operation.addTag tag.1 tag.2).perform.Fails :=
      fun b => (isOk_addTag b _ _).trans htag
    exact .bind_right (fun _ => .bind_right (fun _ => .forM hmem hadd) _) _
  · push Not at hremove
    obtain ⟨name, hmem, hname⟩ := hremove
    have hperform : (Operation.removeTags name).perform.Fails :=
      fun b => (isOk_removeTags b name).trans (by simpa using hname)
    exact .bind_left (.forM hmem hperform) _

/-- A block belongs to its declaration whatever a plan does to it. -/
lemma declaration?_edit (plan : EditPlan) (b : Block) (a : Unit)
    (h : (outcome plan.edit b).1 = .ok a) :
    (outcome plan.edit b).2.declaration? = b.declaration? := by
  have hperform (o : Operation) : Edit.Meets (·.declaration? = b.declaration?) o.perform
      (·.declaration? = b.declaration?) fun _ => True :=
    Operation.meets_perform (fun b' hb => (declaration?_apply b' o).trans hb) fun _ _ _ _ => trivial
  have hreplace (tag : Text × Text) : Edit.Meets (·.declaration? = b.declaration?)
      (replaceExisting tag.1 tag.2) (·.declaration? = b.declaration?) fun _ => True := by
    intro b' hb
    rw [replaceExisting, outcome_get_bind]
    split_ifs
    · exact hperform _ b' hb
    · exact ⟨fun _ _ => hb, fun _ _ => trivial⟩
  have hplan : Edit.Meets (·.declaration? = b.declaration?) plan.edit
      (·.declaration? = b.declaration?) fun _ => True := by
    rw [edit_eq]
    exact .bind (.forM fun _ _ => hperform _) fun _ =>
      .bind (.forM fun tag _ => hreplace tag) fun _ => .forM fun _ _ => hperform _
  exact (hplan b rfl).1 a h

/-- A removal under a name that is accepted does not fail. -/
lemma meets_removeTags {good : Node.Content → Prop} {b₀ : Block} {Q : Failure → Prop} {name : Text}
    (h : (checkName name).isOk) :
    Edit.Meets (Edited good b₀) (Operation.removeTags name).perform (Edited good b₀) Q := by
  refine Operation.meets_perform (fun b hb => ?_) fun b f _ hf => ?_
  · rw [Operation.apply, Operation.edit, outcome_map, outcome_removeTags]
    cases checkName name with
    | error f => exact hb
    | ok n => exact hb.dropTags n
  · have hok := (isOk_removeTags b name).trans h
    rw [hf] at hok
    cases hok

/-- An addition that is accepted does not fail. -/
lemma meets_addTag {Q : Failure → Prop} {name payload : Text}
    (h : (checkTag name payload).isOk) : Edit.Meets (fun _ => True)
      (Operation.addTag name payload).perform (fun _ => True) Q := by
  refine Operation.meets_perform (fun _ _ => trivial) fun b f _ hf => ?_
  have hok := (isOk_addTag b name payload).trans h
  rw [hf] at hok
  cases hok

/-- In a comment that was read, a replacement fails for its payload only. -/
lemma meets_replaceExisting {rules : Rules} {declaration? : Option Nat} {raw : Text}
    {Q : Failure → Prop} {name payload : Text} (hQ : ∀ f, checkContent payload = .error f → Q f) :
    Edit.Meets (Edited IsWellNamed (read rules declaration? raw)) (replaceExisting name payload)
      (Edited IsWellNamed (read rules declaration? raw)) Q := by
  intro b hb
  rw [replaceExisting, outcome_get_bind]
  split_ifs with htag
  · have hname := hb.isTagName_of_hasTag htag
    have hcheck := checkTag_of_isTagName hname payload
    cases hpayload : checkContent payload with
    | error f =>
      rw [outcome_perform, Operation.apply, Operation.edit, outcome_map, outcome_replaceTag, hcheck,
        hpayload]
      refine ⟨fun _ ha => ?_, fun _ hf => ?_⟩
      · cases ha
      · cases hf
        exact hQ f hpayload
    | ok u =>
      have hok := isOk_replaceTag b payload hname
      rw [hpayload] at hcheck hok
      refine ⟨fun _ _ => ?_, fun f hf => ?_⟩
      · rw [outcome_perform, Operation.apply, Operation.edit, outcome_map]
        exact hb.replaceTag hcheck hname (isWellNamed_content hname _)
      · rw [hf] at hok
        cases hok
  · refine ⟨fun _ _ => hb, fun _ hf => ?_⟩
    cases hf

/-- If nothing else is rejected, a plan fails in a comment for the sake of a payload that is to
replace another. -/
lemma exists_of_edit_eq_error {plan : EditPlan} (h : plan.Accepted) {rules : Rules}
    {declaration? : Option Nat} {raw : Text} {f : Failure}
    (hf : (outcome plan.edit (read rules declaration? raw)).1 = .error f) :
    ∃ tag ∈ plan.replace, checkContent tag.2 = .error f := by
  set b₀ := read rules declaration? raw
  set Q : Failure → Prop := fun f => ∃ tag ∈ plan.replace, checkContent tag.2 = .error f
  have hremove : ∀ name ∈ plan.remove, Edit.Meets (Edited IsWellNamed b₀)
      (Operation.removeTags name).perform (Edited IsWellNamed b₀) Q :=
    fun name hmem => meets_removeTags (h.remove name hmem)
  have hreplace : ∀ tag ∈ plan.replace, Edit.Meets (Edited IsWellNamed b₀)
      (replaceExisting tag.1 tag.2) (Edited IsWellNamed b₀) Q :=
    fun tag hmem => meets_replaceExisting fun f hf => ⟨tag, hmem, hf⟩
  have hadd : ∀ tag ∈ plan.add, Edit.Meets (fun _ => True)
      (Operation.addTag tag.1 tag.2).perform (fun _ => True) Q :=
    fun tag hmem => meets_addTag (h.add tag hmem)
  have hplan : Edit.Meets (Edited IsWellNamed b₀) plan.edit (fun _ => True) Q := by
    rw [edit_eq]
    refine .bind (.forM hremove) fun _ => .bind (.forM hreplace) fun _ b _ => ?_
    exact Edit.Meets.forM hadd b trivial
  exact (hplan b₀ (Edited.refl (Tree.unedited_ofTokens rules (scan raw)))).2 f hf

end EditPlan

end DocComment
