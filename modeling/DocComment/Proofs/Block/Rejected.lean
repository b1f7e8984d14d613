import DocComment.Proofs.Block.Run

/-!
# Rejected operations

An operation is rejected before anything is written, also where it is made of two edits: what the
first edit has let through the second lets through as well, and a tag that is changed in place
stands in the comment. So a rejected operation leaves the block as it was (`apply_of_error`).
-/

namespace DocComment.Block

open Text

/-- The outcome of an edit of `b` that leaves the block as it is if it fails. -/
def KeepsIfRejected {α : Type} (b : Block) (r : Except Failure α × Block) : Prop :=
  ∀ f, r.1 = .error f → r.2 = b

section

variable {α β : Type} (b : Block)

lemma keepsIfRejected_error (f : Failure) :
    KeepsIfRejected b ((.error f, b) : Except Failure α × Block) := by
  intro _ _
  rfl

lemma keepsIfRejected_ok (a : α) (b' : Block) :
    KeepsIfRejected b ((.ok a, b') : Except Failure α × Block) := by
  intro _ h
  cases h

/-- Giving another answer changes nothing. -/
lemma keepsIfRejected_map (g : α → β) {e : Edit α} (h : KeepsIfRejected b (outcome e b)) :
    KeepsIfRejected b (outcome (g <$> e) b) := by
  intro f hf
  rw [outcome_map] at hf ⊢
  cases ha : (outcome e b).1 with
  | error f' => exact h f' ha
  | ok a =>
    rw [ha] at hf
    cases hf

/-! ### Edits -/

lemma keepsIfRejected_addTag (name payload : Text) :
    KeepsIfRejected b (outcome (addTag name payload) b) := by
  rw [outcome_addTag]
  cases checkTag name payload with
  | error f => exact keepsIfRejected_error b f
  | ok n => exact keepsIfRejected_ok b _ _

lemma keepsIfRejected_addProse (text : Text) :
    KeepsIfRejected b (outcome (addProse text) b) := by
  rw [outcome_addProse]
  split_ifs
  · exact keepsIfRejected_error b _
  · cases checkContent text with
    | error f => exact keepsIfRejected_error b f
    | ok _ => exact keepsIfRejected_ok b _ _

lemma keepsIfRejected_removeTags (name : Text) :
    KeepsIfRejected b (outcome (removeTags name) b) := by
  rw [outcome_removeTags]
  cases checkName name with
  | error f => exact keepsIfRejected_error b f
  | ok n => exact keepsIfRejected_ok b _ _

/-- A name under which tags are removed is one under which a tag is added, so the tags are gone only
if the new one is there. -/
lemma keepsIfRejected_replaceTags {name payload : Text} (h : checkContent payload = .ok ()) :
    KeepsIfRejected b (outcome (replaceTags name payload) b) := by
  rw [outcome_replaceTags b h]
  cases checkName name with
  | error f => exact keepsIfRejected_error b f
  | ok n => exact keepsIfRejected_ok b _ _

lemma keepsIfRejected_replaceTag (name payload : Text) :
    KeepsIfRejected b (outcome (replaceTag name payload) b) := by
  rw [outcome_replaceTag]
  cases h : checkTag name payload with
  | error f => exact keepsIfRejected_error b f
  | ok n =>
    obtain ⟨-, hpayload⟩ := checks_of_checkTag h
    dsimp only
    split
    · split_ifs
      · exact keepsIfRejected_replaceTags b hpayload
      · exact keepsIfRejected_ok b _ _
    · exact keepsIfRejected_replaceTags b hpayload

lemma keepsIfRejected_markChanged (id : NodeId) :
    KeepsIfRejected b (outcome (markChanged id) b) := by
  rw [outcome_markChanged]
  split_ifs
  · exact keepsIfRejected_ok b _ _
  · exact keepsIfRejected_error b _

/-- The type of a tag is written before the tag is marked. The mark is not rejected, since the tag
stands in the comment. -/
lemma keepsIfRejected_changeType {id : NodeId} (name : Text) (type : TypeExpr)
    (htop : id ∈ b.tree.top) : KeepsIfRejected b (outcome (changeType id name type) b) := by
  by_cases h : ∃ tagName v, b.tree.node? id = some (.tag tagName (.typed v))
  · obtain ⟨tagName, v, hnode⟩ := h
    rw [outcome_changeType_typed b htop hnode]
    exact keepsIfRejected_ok b _ _
  · rw [outcome_changeType]
    split
    · next hnode => exact absurd ⟨_, _, hnode⟩ h
    · exact keepsIfRejected_replaceTag b _ _

lemma keepsIfRejected_changeFirstType (name : Text) (type : TypeExpr) :
    KeepsIfRejected b (outcome (changeFirstType name type) b) := by
  rw [outcome_changeFirstType]
  cases h : b.tagsNamed name with
  | nil => exact keepsIfRejected_addTag b _ _
  | cons id ids =>
    have hmem : id ∈ b.tagsNamed name := by simp [h]
    exact keepsIfRejected_changeType b name type (mem_tagsNamed hmem).1

lemma keepsIfRejected_changeParamType (param : Text) (type : TypeExpr) :
    KeepsIfRejected b (outcome (changeParamType param type) b) := by
  rw [outcome_changeParamType]
  dsimp only
  split_ifs
  · exact keepsIfRejected_error b _
  · cases h : b.paramTag? (param.dropWhile (· = '$')) with
    | none => exact keepsIfRejected_addTag b _ _
    | some id => exact keepsIfRejected_changeType b _ type (mem_tagsNamed (mem_paramTag h)).1

/-! ### Operations and runs -/

lemma keepsIfRejected_apply (o : Operation) : KeepsIfRejected b (o.apply b) := by
  cases o with
  | addTag name payload => exact keepsIfRejected_map b _ (keepsIfRejected_addTag b name payload)
  | addProse text => exact keepsIfRejected_map b _ (keepsIfRejected_addProse b text)
  | removeTags name => exact keepsIfRejected_map b _ (keepsIfRejected_removeTags b name)
  | replaceTag name payload =>
    exact keepsIfRejected_map b _ (keepsIfRejected_replaceTag b name payload)
  | markChanged id => exact keepsIfRejected_map b _ (keepsIfRejected_markChanged b id)
  | changeReturnType type =>
      exact keepsIfRejected_map b _ (keepsIfRejected_changeFirstType b _ type)
  | changeVarType type => exact keepsIfRejected_map b _ (keepsIfRejected_changeFirstType b _ type)
  | changeParamType param type =>
    exact keepsIfRejected_map b _ (keepsIfRejected_changeParamType b param type)

end

/-- A rejected operation leaves the block as it was. -/
theorem apply_of_error (b : Block) (o : Operation) (f : Failure) (h : (o.apply b).1 = .error f) :
    (o.apply b).2 = b :=
  keepsIfRejected_apply b o f h

/-- A name of two `@` is rejected only once the name without the first of them is looked at. -/
theorem apply_of_error_replaceTag :
    (Operation.apply (.replaceTag "@@".toList "y".toList)
        (read .standard none "/** @a x */".toList)).1 = .error .emptyTagName ∧
      (Operation.apply (.replaceTag "@@".toList "y".toList)
        (read .standard none "/** @a x */".toList)).2 =
        read .standard none "/** @a x */".toList := by
  have h : (Operation.apply (.replaceTag "@@".toList "y".toList)
      (read .standard none "/** @a x */".toList)).1 = .error .emptyTagName := by
    decide +kernel
  exact ⟨h, apply_of_error _ _ _ h⟩

end DocComment.Block
