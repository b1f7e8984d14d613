import Mathlib.Logic.Relation
import DocComment.Block.Edit
import DocComment.Proofs.Tree.Forest

/-!
# Runs of edits

A block is edited by a list of operations, one after the other; an operation that fails gives no
answer, and the next one goes on with the block as it is then (`Block.run`). Between the operations
single nodes may be changed as well (`Block.act`).

Each edit is brought into the form of its outcome (`outcome_addTag` and so on), and from there every
operation is seen to be made of six kinds of steps (`Block.Step`, `steps_apply`). What a step keeps,
a run keeps (`act_induction`).
-/

namespace DocComment.Block

open Text Relation

/-! ### Operations -/

/-- An edit with its arguments. -/
inductive Operation where
  | addTag (name payload : Text)
  | addProse (text : Text)
  | removeTags (name : Text)
  | replaceTag (name payload : Text)
  | markChanged (id : NodeId)
  | changeReturnType (type : TypeExpr)
  | changeVarType (type : TypeExpr)
  | changeParamType (param : Text) (type : TypeExpr)
  deriving DecidableEq, Repr, Inhabited

/-- What an operation answers. -/
inductive Answer where
  | node (id : NodeId)
  | count (n : Nat)
  | done
  deriving DecidableEq, Repr, Inhabited

/-- The edit that an operation stands for. -/
def Operation.edit : Operation → Edit Answer
  | .addTag name payload => .node <$> Block.addTag name payload
  | .addProse text => .node <$> Block.addProse text
  | .removeTags name => .count <$> Block.removeTags name
  | .replaceTag name payload => .node <$> Block.replaceTag name payload
  | .markChanged id => (fun _ => .done) <$> Block.markChanged id
  | .changeReturnType type => .node <$> Block.changeReturnType type
  | .changeVarType type => .node <$> Block.changeVarType type
  | .changeParamType param type => .node <$> Block.changeParamType param type

/-- What an edit answers, and the block after it. -/
def outcome {α : Type} (e : Edit α) (b : Block) : Except Failure α × Block := e.run.run b

/-- What an operation answers, and the block after it. -/
def Operation.apply (o : Operation) (b : Block) : Except Failure Answer × Block :=
  outcome o.edit b

/-- The block after some operations. -/
def run (b : Block) (os : List Operation) : Block := os.foldl (fun b o => (o.apply b).2) b

/-- An operation, or a change of a single node. -/
inductive Action where
  | edit (o : Operation)
  | change (id : NodeId) (c : Node.Change)
  deriving DecidableEq, Repr, Inhabited

/-- The block after an action. -/
def Action.apply (b : Block) : Action → Block
  | .edit o => (o.apply b).2
  | .change id c => b.changeNode id c

/-- The block after some actions. -/
def act (b : Block) (as : List Action) : Block := as.foldl Action.apply b

lemma run_eq_act (b : Block) (os : List Operation) : b.run os = b.act (os.map .edit) := by
  simp [run, act, List.foldl_map, Action.apply]

lemma run_append (b : Block) (os os' : List Operation) :
    b.run (os ++ os') = (b.run os).run os' := by
  simp [run]

/-! ### Outcomes -/

/-- The name under which a tag is written, if it may be written at all. -/
def checkTag (name payload : Text) : Except Failure Text := do
  let name ← checkName name
  checkContent payload
  return name

/-- The block in which a node has been changed in place. -/
def withNode (b : Block) (id : NodeId) (n : Node) : Block :=
  { b with tree := (b.tree.replace id n).markChanged id, dirty := true }

/-- The block in which a node has been marked as changed. -/
def withMark (b : Block) (id : NodeId) : Block :=
  { b with tree := b.tree.markChanged id, dirty := true }

/-- Replaces the tags of this name by one at the end. -/
def replaceTags (name payload : Text) : Edit NodeId := do
  let _ ← removeTags name
  addTag name payload

lemma outcome_map {α β : Type} (f : α → β) (e : Edit α) (b : Block) :
    outcome (f <$> e) b = ((outcome e b).1.map f, (outcome e b).2) := by
  simp only [outcome, ExceptT.run_map, StateT.run_map]
  rfl

variable (b : Block)

/-- The second of two edits is made to the block that the first one leaves, unless that fails. -/
lemma outcome_bind {α β : Type} (e : Edit α) (g : α → Edit β) :
    outcome (e >>= g) b = match outcome e b with
      | (.error f, b') => (.error f, b')
      | (.ok a, b') => outcome (g a) b' := by
  simp only [outcome, ExceptT.run_bind, StateT.run_bind]
  rcases e.run.run b with ⟨_ | _, b'⟩ <;> rfl

lemma outcome_get_bind {α : Type} (f : Block → Edit α) :
    outcome (do f (← get)) b = outcome (f b) b := rfl

lemma outcome_addTag (name payload : Text) :
    outcome (addTag name payload) b =
      match checkTag name payload with
      | .error f => (.error f, b)
      | .ok n =>
        let b' := b.pushTag n (b.rules.resolve n (trim payload))
        (.ok b'.2, b'.1) := by
  unfold addTag checkTag
  cases h : checkName name with
  | error f => rfl
  | ok n =>
    cases h' : checkContent payload with
    | error f => rfl
    | ok u => rfl

lemma outcome_addProse (text : Text) :
    outcome (addProse text) b =
      if trim text = [] then (.error .emptyProse, b)
      else match checkContent text with
        | .error f => (.error f, b)
        | .ok _ => (.ok (b.pushProse (trim text)).2, (b.pushProse (trim text)).1) := by
  unfold addProse
  split_ifs
  · rfl
  · cases h : checkContent text with
    | error f => rfl
    | ok u => rfl

lemma outcome_removeTags (name : Text) :
    outcome (removeTags name) b =
      match checkName name with
      | .error f => (.error f, b)
      | .ok n => (.ok (b.dropTags n).2.length, (b.dropTags n).1) := by
  unfold removeTags
  cases h : checkName name with
  | error f => rfl
  | ok n => rfl

lemma checkTag_eq_ok {name payload n : Text} (hname : checkName name = .ok n)
    (hpayload : checkContent payload = .ok ()) : checkTag name payload = .ok n := by
  simp only [checkTag, hname, hpayload]
  rfl

lemma outcome_replaceTags {name payload : Text} (h : checkContent payload = .ok ()) :
    outcome (replaceTags name payload) b =
      match checkName name with
      | .error f => (.error f, b)
      | .ok n =>
        let b₁ := (b.dropTags n).1
        let b₂ := b₁.pushTag n (b₁.rules.resolve n (trim payload))
        (.ok b₂.2, b₂.1) := by
  rw [replaceTags, outcome_bind, outcome_removeTags]
  cases hn : checkName name with
  | error f => rfl
  | ok n => simp only [outcome_addTag, checkTag_eq_ok hn h]

lemma outcome_replaceTag (name payload : Text) :
    outcome (replaceTag name payload) b =
      match checkTag name payload with
      | .error f => (.error f, b)
      | .ok n =>
        match b.tagsNamed n with
        | [only] =>
          if b.tree.attributes.isSynthesized only then outcome (replaceTags n payload) b
          else (.ok only, b.rereadTag only n (b.rules.resolve n (trim payload)))
        | _ => outcome (replaceTags n payload) b := by
  unfold replaceTag checkTag
  cases h : checkName name with
  | error f => rfl
  | ok n =>
    cases h' : checkContent payload with
    | error f => rfl
    | ok u =>
      -- The block is got once the name and the payload have been checked.
      change outcome (match b.tagsNamed n with
        | [only] =>
          if b.tree.attributes.isSynthesized only then replaceTags n payload
          else do
            set (b.rereadTag only n (b.rules.resolve n (trim payload)))
            return only
        | _ => replaceTags n payload) b = match b.tagsNamed n with
        | [only] =>
          if b.tree.attributes.isSynthesized only then outcome (replaceTags n payload) b
          else (.ok only, b.rereadTag only n (b.rules.resolve n (trim payload)))
        | _ => outcome (replaceTags n payload) b
      split
      · split_ifs <;> rfl
      · rfl

lemma outcome_markChanged (id : NodeId) :
    outcome (markChanged id) b =
      if b.tree.contains id then (.ok (), b.withMark id) else (.error (.foreignNode id), b) := by
  change outcome (do
    if !b.tree.contains id then throw (.foreignNode id)
    set (b.withMark id)) b = _
  cases b.tree.contains id <;> rfl

lemma outcome_changeType (id : NodeId) (name : Text) (type : TypeExpr) :
    outcome (changeType id name type) b =
      match b.tree.node? id with
      | some (.tag tagName (.typed v)) =>
        if v.type = type then (.ok id, b)
        else
          let b' := { b with tree := b.tree.replace id (.tag tagName (.typed { v with type })) }
          ((outcome (markChanged id) b').1.map fun _ => id, (outcome (markChanged id) b').2)
      | _ => outcome (replaceTag name (b.rules.types.write type)) b := by
  unfold changeType
  rw [outcome_get_bind]
  cases b.tree.node? id with
  | none => rfl
  | some n =>
    cases n with
    | prose _ => rfl
    | fragment _ => rfl
    | container _ _ _ _ => rfl
    | tag tagName value =>
      cases value with
      | generic _ => rfl
      | typed v =>
        dsimp only
        split_ifs
        · rfl
        · rw [← outcome_map]
          rfl

lemma outcome_changeFirstType (name : Text) (type : TypeExpr) :
    outcome (changeFirstType name type) b =
      match b.tagsNamed name with
      | id :: _ => outcome (changeType id name type) b
      | [] => outcome (addTag name (b.rules.types.write type)) b := by
  unfold changeFirstType
  rw [outcome_get_bind]
  cases b.tagsNamed name <;> rfl

lemma outcome_changeParamType (param : Text) (type : TypeExpr) :
    outcome (changeParamType param type) b =
      let bare := param.dropWhile (· = '$')
      if bare = [] then (.error .emptyParameterName, b)
      else match b.paramTag? bare with
        | some id => outcome (changeType id "param".toList type) b
        | none =>
          outcome (addTag "param".toList (b.rules.types.write type ++ ' ' :: '$' :: bare)) b := by
  unfold changeParamType
  dsimp only
  split_ifs
  · rfl
  · rw [outcome_get_bind]
    cases b.paramTag? (param.dropWhile (· = '$')) <;> rfl

/-! ### Tags by name -/

variable {b}

lemma mem_tagsNamed {name : Text} {id : NodeId} (h : id ∈ b.tagsNamed name) :
    id ∈ b.tree.top ∧ ∃ n, b.tree.node? id = some n ∧ n.tagName? = some (bareName name) := by
  simp only [tagsNamed, List.mem_map, List.mem_filter, Tree.topNodes, List.mem_filterMap,
    Option.map_eq_some_iff] at h
  obtain ⟨⟨i, n⟩, ⟨⟨j, hj, m, hm, hp⟩, hn⟩, rfl⟩ := h
  obtain ⟨rfl, rfl⟩ := Prod.mk.inj hp
  exact ⟨hj, m, hm, by simpa [isTagNamed] using hn⟩

lemma mem_paramTag {param : Text} {id : NodeId} (h : b.paramTag? param = some id) :
    id ∈ b.tagsNamed "param".toList :=
  List.mem_of_find?_eq_some h

/-! ### Steps -/

/-- What operations are made of. A node is given other content only if `p` holds of it. -/
inductive Step (p : NodeId → Prop) : Block → Block → Prop where
  | pushTag (b : Block) (name : Text) (r : Reading) : Step p b (b.pushTag name r).1
  | pushProse (b : Block) (text : Text) : Step p b (b.pushProse text).1
  | dropTags (b : Block) (name : Text) : Step p b (b.dropTags name).1
  | rereadTag {b : Block} {id : NodeId} {n : Node} (name : Text) (r : Reading)
      (htop : id ∈ b.tree.top) (hnode : b.tree.node? id = some n) (htag : n.tagName?.isSome)
      (hread : b.tree.attributes.isSynthesized id = false) (hid : p id) :
      Step p b (b.rereadTag id name r)
  | retype {b : Block} {id : NodeId} {name : Text} {v : TypedValue} (type : TypeExpr)
      (htop : id ∈ b.tree.top) (hnode : b.tree.node? id = some (.tag name (.typed v)))
      (hid : p id) : Step p b (b.withNode id (.tag name (.typed { v with type })))
  | withMark {b : Block} {id : NodeId} (hid : b.tree.contains id) : Step p b (b.withMark id)

/-- Steps one after the other. -/
abbrev Steps (p : NodeId → Prop) : Block → Block → Prop := ReflTransGen (Step p)

lemma Step.mono {p q : NodeId → Prop} (hpq : ∀ id, p id → q id) {b b' : Block}
    (h : Step p b b') : Step q b b' := by
  cases h with
  | pushTag name r => exact .pushTag b name r
  | pushProse text => exact .pushProse b text
  | dropTags name => exact .dropTags b name
  | rereadTag name r htop hnode htag hread hid =>
    exact .rereadTag name r htop hnode htag hread (hpq _ hid)
  | retype type htop hnode hid => exact .retype type htop hnode (hpq _ hid)
  | withMark hid => exact .withMark hid

/-- The outcome of an edit of `b`: steps that change the content of the node in the answer only,
which then stands in the comment. -/
structure Performs (b : Block) (r : Except Failure NodeId × Block) : Prop where
  steps : Steps (fun id => r.1 = .ok id) b r.2
  answer : ∀ id, r.1 = .ok id → id ∈ r.2.tree.top

variable (b)

lemma performs_error (f : Failure) : Performs b (.error f, b) where
  steps := .refl
  answer _ h := by cases h

lemma mem_top_pushTag (name : Text) (r : Reading) :
    (b.pushTag name r).2 ∈ (b.pushTag name r).1.tree.top := by
  simp [pushTag]

lemma mem_top_pushProse (text : Text) : (b.pushProse text).2 ∈ (b.pushProse text).1.tree.top := by
  simp [pushProse]

lemma performs_pushTag (name : Text) (r : Reading) :
    Performs b (.ok (b.pushTag name r).2, (b.pushTag name r).1) where
  steps := .single (.pushTag b name r)
  answer id h := by
    cases h
    exact mem_top_pushTag b name r

lemma performs_addTag (name payload : Text) : Performs b (outcome (addTag name payload) b) := by
  rw [outcome_addTag]
  cases checkTag name payload with
  | error f => exact performs_error b f
  | ok n => exact performs_pushTag b n _

lemma performs_addProse (text : Text) : Performs b (outcome (addProse text) b) := by
  rw [outcome_addProse]
  split_ifs
  · exact performs_error b _
  · cases checkContent text with
    | error f => exact performs_error b f
    | ok u =>
      refine ⟨.single (.pushProse b _), fun id h => ?_⟩
      cases h
      exact mem_top_pushProse b _

lemma performs_replaceTags {name payload : Text} (h : checkContent payload = .ok ()) :
    Performs b (outcome (replaceTags name payload) b) := by
  rw [outcome_replaceTags b h]
  cases checkName name with
  | error f => exact performs_error b f
  | ok n =>
    have hpush := performs_pushTag (b.dropTags n).1 n
      ((b.dropTags n).1.rules.resolve n (trim payload))
    exact ⟨.head (.dropTags b n) hpush.steps, hpush.answer⟩

lemma checks_of_checkTag {name payload n : Text} (h : checkTag name payload = .ok n) :
    checkName name = .ok n ∧ checkContent payload = .ok () := by
  unfold checkTag at h
  cases hn : checkName name with
  | error f => rw [hn] at h; cases h
  | ok m =>
    rw [hn] at h
    cases hc : checkContent payload with
    | error f => rw [hc] at h; cases h
    | ok u =>
      rw [hc] at h
      cases h
      exact ⟨rfl, rfl⟩

lemma top_rereadTag (id : NodeId) (name : Text) (r : Reading) :
    (b.rereadTag id name r).tree.top = b.tree.top := by
  unfold rereadTag
  dsimp only
  split_ifs <;> simp

lemma performs_replaceTag (name payload : Text) :
    Performs b (outcome (replaceTag name payload) b) := by
  rw [outcome_replaceTag]
  cases h : checkTag name payload with
  | error f => exact performs_error b f
  | ok n =>
    have hc := (checks_of_checkTag h).2
    dsimp only
    split
    · next only htags =>
      split_ifs with hs
      · exact performs_replaceTags b hc
      · have hmem : only ∈ b.tagsNamed n := by simp [htags]
        obtain ⟨htop, m, hm, hname⟩ := mem_tagsNamed hmem
        refine ⟨.single (.rereadTag n _ htop hm (by simp [hname]) (by simpa using hs) rfl), ?_⟩
        intro id hid
        cases hid
        rwa [top_rereadTag]
    · exact performs_replaceTags b hc

lemma contains_of_mem_top {t : Tree} {id : NodeId} (h : id ∈ t.top) : t.contains id := by
  rw [Tree.contains, List.any_eq_true]
  exact ⟨id, h, by simp⟩

/-- The type of a typed tag at the top is changed where the tag stands. -/
lemma outcome_changeType_typed {id : NodeId} {name tagName : Text} {v : TypedValue}
    {type : TypeExpr} (htop : id ∈ b.tree.top)
    (hnode : b.tree.node? id = some (.tag tagName (.typed v))) :
    outcome (changeType id name type) b = (.ok id,
      if v.type = type then b else b.withNode id (.tag tagName (.typed { v with type }))) := by
  rw [outcome_changeType, hnode]
  dsimp only
  split_ifs
  · rfl
  · have hc : ({ b with tree := b.tree.replace id (.tag tagName (.typed { v with type })) }
        : Block).tree.contains id := contains_of_mem_top htop
    simp only [outcome_markChanged, hc, if_true]
    rfl

lemma performs_changeType {id : NodeId} (name : Text) (type : TypeExpr) (htop : id ∈ b.tree.top) :
    Performs b (outcome (changeType id name type) b) := by
  by_cases h : ∃ tagName v, b.tree.node? id = some (.tag tagName (.typed v))
  · obtain ⟨tagName, v, hnode⟩ := h
    rw [outcome_changeType_typed b htop hnode]
    split_ifs
    · refine ⟨.refl, fun id' h => ?_⟩
      cases h
      exact htop
    · refine ⟨.single (.retype type htop hnode rfl), fun id' h => ?_⟩
      cases h
      exact htop
  · rw [outcome_changeType]
    split
    · next hnode => exact absurd ⟨_, _, hnode⟩ h
    · exact performs_replaceTag b _ _

lemma performs_changeFirstType (name : Text) (type : TypeExpr) :
    Performs b (outcome (changeFirstType name type) b) := by
  rw [outcome_changeFirstType]
  cases h : b.tagsNamed name with
  | nil => exact performs_addTag b _ _
  | cons id ids =>
    have hmem : id ∈ b.tagsNamed name := by simp [h]
    exact performs_changeType b name type (mem_tagsNamed hmem).1

lemma performs_changeParamType (param : Text) (type : TypeExpr) :
    Performs b (outcome (changeParamType param type) b) := by
  rw [outcome_changeParamType]
  dsimp only
  split_ifs
  · exact performs_error b _
  · cases h : b.paramTag? (param.dropWhile (· = '$')) with
    | none => exact performs_addTag b _ _
    | some id => exact performs_changeType b _ type (mem_tagsNamed (mem_paramTag h)).1

variable {p : NodeId → Prop}

lemma steps_removeTags (name : Text) : Steps p b (outcome (removeTags name) b).2 := by
  rw [outcome_removeTags]
  cases checkName name with
  | error f => exact .refl
  | ok n => exact .single (.dropTags b n)

lemma steps_markChanged (id : NodeId) : Steps p b (outcome (markChanged id) b).2 := by
  rw [outcome_markChanged]
  split_ifs with h
  · exact .single (.withMark h)
  · exact .refl

/-- An operation that answers with a node. -/
lemma performs_map {e : Edit NodeId} (h : Performs b (outcome e b)) :
    Steps (fun id => (outcome (Answer.node <$> e) b).1 = .ok (.node id)) b
        (outcome (Answer.node <$> e) b).2 ∧
      ∀ id, (outcome (Answer.node <$> e) b).1 = .ok (.node id) →
        id ∈ (outcome (Answer.node <$> e) b).2.tree.top := by
  simp only [outcome_map]
  have hmono : ∀ id, (outcome e b).1 = .ok id →
      (outcome e b).1.map Answer.node = .ok (.node id) := by
    intro id hid
    rw [hid]
    rfl
  refine ⟨ReflTransGen.mono (fun _ _ => Step.mono hmono) _ _ h.steps, fun id hid => ?_⟩
  refine h.answer id ?_
  cases ha : (outcome e b).1 with
  | error f => rw [ha] at hid; cases hid
  | ok id' =>
    rw [ha] at hid
    cases hid
    rfl

/-- Every operation is made of steps, and changes at most the node that it answers with. -/
lemma steps_apply (o : Operation) :
    Steps (fun id => (o.apply b).1 = .ok (.node id)) b (o.apply b).2 ∧
      ∀ id, (o.apply b).1 = .ok (.node id) → id ∈ (o.apply b).2.tree.top := by
  cases o with
  | addTag name payload => exact performs_map b (performs_addTag b name payload)
  | addProse text => exact performs_map b (performs_addProse b text)
  | removeTags name =>
    simp only [Operation.apply, Operation.edit, outcome_map]
    refine ⟨steps_removeTags b name, fun id h => ?_⟩
    cases ha : (outcome (removeTags name) b).1 <;> rw [ha] at h <;> cases h
  | replaceTag name payload => exact performs_map b (performs_replaceTag b name payload)
  | markChanged id =>
    simp only [Operation.apply, Operation.edit, outcome_map]
    refine ⟨steps_markChanged b id, fun id' h => ?_⟩
    cases ha : (outcome (markChanged id) b).1 <;> rw [ha] at h <;> cases h
  | changeReturnType type =>
    unfold Operation.apply Operation.edit changeReturnType
    exact performs_map b (performs_changeFirstType b _ type)
  | changeVarType type =>
    unfold Operation.apply Operation.edit changeVarType
    exact performs_map b (performs_changeFirstType b _ type)
  | changeParamType param type => exact performs_map b (performs_changeParamType b param type)

/-! ### Induction over a run -/

variable {b} {P : Block → Prop}

lemma Steps.induction (hstep : ∀ {b b'}, Step p b b' → P b → P b') {b' : Block}
    (h : Steps p b b') (hb : P b) : P b' := by
  induction h with
  | refl => exact hb
  | tail _ h ih => exact hstep h ih

/-- What every step keeps holds after a run. -/
lemma run_induction (hstep : ∀ {p b b'}, Step p b b' → P b → P b') (os : List Operation)
    (hb : P b) : P (b.run os) := by
  induction os generalizing b with
  | nil => exact hb
  | cons o os ih => exact ih (Steps.induction hstep (steps_apply b o).1 hb)

/-- What every step and every change of a node keeps holds after some actions. -/
lemma act_induction (hstep : ∀ {p b b'}, Step p b b' → P b → P b')
    (hchange : ∀ {b} id c, P b → P (b.changeNode id c)) (as : List Action) (hb : P b) :
    P (b.act as) := by
  induction as generalizing b with
  | nil => exact hb
  | cons a as ih =>
    cases a with
    | edit o => exact ih (Steps.induction hstep (steps_apply b o).1 hb)
    | change id c => exact ih (hchange id c hb)

end DocComment.Block
