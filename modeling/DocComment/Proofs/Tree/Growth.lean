import Mathlib.Data.List.Basic
import Mathlib.Order.Nat
import Mathlib.Tactic.Common
import DocComment.Proofs.Tree.Attributes
import DocComment.Tree.Basic

/-!
# How trees grow

Nodes are only ever added, so a number that was handed out denotes a node for good. A tree *grows*
when it gets more nodes and leaves the old ones as they are (`Tree.Grows`); making a node and making
a tag let it grow (`grows_make`, `grows_makeTag`).

What a tag says does not depend on the numbers of its fragments: `Tree.content?` gives the texts of
the fragments in place of their numbers, and a tag that is made for a reading says just that
(`content?_makeTag`).
-/

namespace DocComment

/-! ### What a node says -/

/-- A node with the texts of its fragments in place of their numbers. -/
inductive Node.Content where
  | prose (text : Text)
  | tag (name : Text) (value : TagValue)
  | fragment (text : Text)
  | container (name : Text) (signature : Signature) (fragments : List Text) (description : Text)
  deriving DecidableEq, Repr, Inhabited

/-- What a tag of this name says when its payload is read like this. -/
def Reading.content (name : Text) : Reading → Node.Content
  | .value v => .tag name v
  | .method m => .container name m.signature (m.params.map (·.text)) m.description

namespace Tree

/-- What a node says, given the texts of the fragments. -/
def contentOf (t : Tree) : Node → Node.Content
  | .prose text => .prose text
  | .tag name value => .tag name value
  | .fragment text => .fragment text
  | .container name signature fragments description =>
    .container name signature (fragments.map t.fragmentText) description

/-- What the node of this number says. -/
def content? (t : Tree) (id : NodeId) : Option Node.Content := (t.node? id).map t.contentOf

/-- What the nodes of the comment say, in order. -/
def contents (t : Tree) : List (Option Node.Content) := t.top.map t.content?

/-! ### Single nodes -/

lemma node?_eq_none_iff {t : Tree} {id : Nat} : t.node? id = none ↔ t.nodes.size ≤ id := by
  simp [node?]

lemma lt_size_of_node? {t : Tree} {id : Nat} {n : Node} (h : t.node? id = some n) :
    id < t.nodes.size := by
  by_contra hlt
  rw [node?_eq_none_iff.2 (Nat.not_lt.1 hlt)] at h
  cases h

lemma exists_node? {t : Tree} {id : Nat} (h : id < t.nodes.size) : ∃ n, t.node? id = some n := by
  cases hn : t.node? id with
  | none => exact absurd (node?_eq_none_iff.1 hn) (Nat.not_le.2 h)
  | some n => exact ⟨n, rfl⟩

lemma fragments_of_node? {t : Tree} {id : NodeId} {n : Node} (h : t.node? id = some n) :
    t.fragments id = n.fragments := by
  simp [fragments, h]

lemma fragments_eq_of_node?_eq {t t' : Tree} {id : NodeId} (h : t'.node? id = t.node? id) :
    t'.fragments id = t.fragments id := by
  simp [fragments, h]

lemma fragmentText_eq_of_node?_eq {t t' : Tree} {id : NodeId} (h : t'.node? id = t.node? id) :
    t'.fragmentText id = t.fragmentText id := by
  simp [fragmentText, h]

lemma contentOf_congr {t t' : Tree} {n : Node} (h : ∀ f ∈ n.fragments, t'.node? f = t.node? f) :
    t'.contentOf n = t.contentOf n := by
  cases n with
  | prose _ => rfl
  | tag _ _ => rfl
  | fragment _ => rfl
  | container name signature fragments description =>
    simp only [contentOf, Node.Content.container.injEq, true_and, and_true]
    exact List.map_congr_left fun f hf => fragmentText_eq_of_node?_eq (h f hf)

/-- A node says the same in any tree in which it and its fragments are the same. -/
lemma content?_congr {t t' : Tree} {id : NodeId}
    (h : ∀ i ∈ id :: t.fragments id, t'.node? i = t.node? i) : t'.content? id = t.content? id := by
  rw [content?, content?, h id List.mem_cons_self]
  cases hn : t.node? id with
  | none => rfl
  | some n =>
    rw [fragments_of_node? hn] at h
    exact congrArg some (contentOf_congr fun f hf => h f (List.mem_cons_of_mem _ hf))

@[simp] lemma size_make (t : Tree) (n : Node) :
    (t.make n).1.nodes.size = t.nodes.size + 1 := by
  simp [make]

@[simp] lemma make_snd (t : Tree) (n : Node) : (t.make n).2 = t.nodes.size := rfl

@[simp] lemma top_make (t : Tree) (n : Node) : (t.make n).1.top = t.top := rfl

@[simp] lemma attributes_make (t : Tree) (n : Node) :
    (t.make n).1.attributes = t.attributes := rfl

lemma node?_make (t : Tree) (n : Node) (id : NodeId) :
    (t.make n).1.node? id = if id = t.nodes.size then some n else t.node? id := by
  simp [make, node?, Array.getElem?_push]

@[simp] lemma size_replace (t : Tree) (id : NodeId) (n : Node) :
    (t.replace id n).nodes.size = t.nodes.size := by
  simp [replace]

@[simp] lemma top_replace (t : Tree) (id : NodeId) (n : Node) : (t.replace id n).top = t.top := rfl

@[simp] lemma attributes_replace (t : Tree) (id : NodeId) (n : Node) :
    (t.replace id n).attributes = t.attributes := rfl

lemma node?_replace_self {t : Tree} {id : Nat} (n : Node) (h : id < t.nodes.size) :
    (t.replace id n).node? id = some n := by
  simp [replace, node?, h]

lemma node?_replace_of_ne (t : Tree) {id id' : NodeId} (n : Node) (h : id' ≠ id) :
    (t.replace id n).node? id' = t.node? id' := by
  simp [replace, node?, Array.getElem?_setIfInBounds_ne h.symm]

@[simp] lemma nodes_markSynthesized (t : Tree) (ids : List NodeId) :
    (t.markSynthesized ids).nodes = t.nodes := rfl

@[simp] lemma node?_markSynthesized (t : Tree) (ids : List NodeId) (id : NodeId) :
    (t.markSynthesized ids).node? id = t.node? id := rfl

@[simp] lemma top_markSynthesized (t : Tree) (ids : List NodeId) :
    (t.markSynthesized ids).top = t.top := rfl

@[simp] lemma nodes_markChanged (t : Tree) (id : NodeId) : (t.markChanged id).nodes = t.nodes := rfl

@[simp] lemma node?_markChanged (t : Tree) (id id' : NodeId) :
    (t.markChanged id).node? id' = t.node? id' := rfl

@[simp] lemma top_markChanged (t : Tree) (id : NodeId) : (t.markChanged id).top = t.top := rfl

@[simp] lemma nodes_push (t : Tree) (id : NodeId) : (t.push id).nodes = t.nodes := rfl

@[simp] lemma node?_push (t : Tree) (id id' : NodeId) : (t.push id).node? id' = t.node? id' := rfl

@[simp] lemma top_push (t : Tree) (id : NodeId) : (t.push id).top = t.top ++ [id] := rfl

@[simp] lemma attributes_push (t : Tree) (id : NodeId) :
    (t.push id).attributes = t.attributes := rfl

/-! ### Growing -/

/-- The second tree has the nodes of the first, and maybe more. -/
structure Grows (t t' : Tree) : Prop where
  size_le : t.nodes.size ≤ t'.nodes.size
  node? : ∀ id < t.nodes.size, t'.node? id = t.node? id

namespace Grows

variable {t t' t'' : Tree}

protected lemma refl (t : Tree) : Grows t t := ⟨le_rfl, fun _ _ => rfl⟩

protected lemma trans (h : Grows t t') (h' : Grows t' t'') : Grows t t'' where
  size_le := h.size_le.trans h'.size_le
  node? id hid := (h'.node? id (hid.trans_le h.size_le)).trans (h.node? id hid)

lemma node?_of_some (h : Grows t t') {id : NodeId} {n : Node} (hn : t.node? id = some n) :
    t'.node? id = some n :=
  (h.node? id (lt_size_of_node? hn)).trans hn

lemma fragments (h : Grows t t') {id : Nat} (hid : id < t.nodes.size) :
    t'.fragments id = t.fragments id :=
  fragments_eq_of_node?_eq (h.node? id hid)

/-- A node says the same in the grown tree if its fragments were there before. -/
lemma content? (h : Grows t t') {id : Nat} (hid : id < t.nodes.size)
    (hf : ∀ f ∈ t.fragments id, f < t.nodes.size) : t'.content? id = t.content? id := by
  refine content?_congr fun i hi => ?_
  rcases List.mem_cons.1 hi with rfl | hi
  · exact h.node? i hid
  · exact h.node? i (hf i hi)

end Grows

lemma grows_make (t : Tree) (n : Node) : Grows t (t.make n).1 where
  size_le := by simp
  node? id hid := by rw [node?_make, if_neg (Nat.ne_of_lt hid)]

/-- A node beyond the old ones may be replaced. -/
lemma Grows.replace {t t' : Tree} (h : Grows t t') {id : Nat} (hid : t.nodes.size ≤ id)
    (n : Node) : Grows t (t'.replace id n) where
  size_le := by simpa using h.size_le
  node? id' hid' := by
    rw [node?_replace_of_ne t' n (Nat.ne_of_lt (hid'.trans_le hid))]
    exact h.node? id' hid'

/-! ### Tags -/

@[simp] lemma top_makeFragments (t : Tree) (name : Text) (r : Reading) :
    (t.makeFragments name r).1.top = t.top := by
  cases r <;> rfl

@[simp] lemma attributes_makeFragments (t : Tree) (name : Text) (r : Reading) :
    (t.makeFragments name r).1.attributes = t.attributes := by
  cases r <;> rfl

lemma grows_makeFragments (t : Tree) (name : Text) (r : Reading) :
    Grows t (t.makeFragments name r).1 := by
  cases r with
  | value _ => exact Grows.refl t
  | method m =>
    refine ⟨by simp [makeFragments], fun id hid => ?_⟩
    simp [makeFragments, node?, Array.getElem?_append_left hid]

/-- The fragments of a tag that is about to be made are the nodes that were just made for it. -/
lemma fragments_makeFragments (t : Tree) (name : Text) (r : Reading) :
    (t.makeFragments name r).2.fragments =
      List.range' t.nodes.size ((t.makeFragments name r).1.nodes.size - t.nodes.size) := by
  cases r with
  | value _ => simp [makeFragments, Node.fragments]
  | method m => simp [makeFragments, Node.fragments]

lemma node?_of_mem_fragments_makeFragments {t : Tree} {name : Text} {r : Reading} {f : Nat}
    (hf : f ∈ (t.makeFragments name r).2.fragments) :
    ∃ text, (t.makeFragments name r).1.node? f = some (.fragment text) := by
  cases r with
  | value _ => simp [makeFragments, Node.fragments] at hf
  | method m =>
    simp only [makeFragments, Node.fragments, List.mem_range'_1] at hf
    have hlt : f - t.nodes.size < m.params.length := by omega
    refine ⟨m.params[f - t.nodes.size].text, ?_⟩
    simp [makeFragments, node?, Array.getElem?_append_right hf.1, hlt]

/-- The tag says what the reading says, wherever it is put. -/
lemma contentOf_makeFragments (t : Tree) (name : Text) (r : Reading) :
    (t.makeFragments name r).1.contentOf (t.makeFragments name r).2 = r.content name := by
  cases r with
  | value _ => rfl
  | method m =>
    simp only [makeFragments, contentOf, Reading.content, Node.Content.container.injEq, true_and,
      and_true]
    apply List.ext_getElem
    · simp
    · intro i hi hi'
      simp only [List.length_map] at hi'
      simp [fragmentText, node?, hi']

section makeTag

variable (t : Tree) (name : Text) (r : Reading)

lemma makeTag_eq : t.makeTag name r =
    (t.makeFragments name r).1.make (t.makeFragments name r).2 := rfl

lemma makeTag_snd : (t.makeTag name r).2 = (t.makeFragments name r).1.nodes.size := rfl

@[simp] lemma top_makeTag : (t.makeTag name r).1.top = t.top := by simp [makeTag_eq]

@[simp] lemma attributes_makeTag : (t.makeTag name r).1.attributes = t.attributes := by
  simp [makeTag_eq]

lemma size_makeTag : (t.makeTag name r).1.nodes.size = (t.makeTag name r).2 + 1 := by
  simp [makeTag_eq]

lemma size_le_makeTag_snd : t.nodes.size ≤ (t.makeTag name r).2 :=
  (grows_makeFragments t name r).size_le

lemma grows_makeTag : Grows t (t.makeTag name r).1 :=
  (grows_makeFragments t name r).trans (grows_make _ _)

lemma node?_makeTag :
    (t.makeTag name r).1.node? (t.makeTag name r).2 = some (t.makeFragments name r).2 := by
  rw [makeTag_snd, makeTag_eq, node?_make, if_pos rfl]

lemma fragments_makeTag :
    (t.makeTag name r).1.fragments (t.makeTag name r).2 =
      List.range' t.nodes.size ((t.makeTag name r).1.nodes.size - 1 - t.nodes.size) := by
  rw [fragments_of_node? (node?_makeTag t name r), fragments_makeFragments, size_makeTag]
  rfl

/-- A tag and its fragments have new numbers. -/
lemma size_le_of_mem_makeTag {i : NodeId} (hi : i ∈ (t.makeTag name r).2 ::
    (t.makeTag name r).1.fragments (t.makeTag name r).2) : t.nodes.size ≤ i := by
  rw [fragments_makeTag, List.mem_cons, List.mem_range'_1] at hi
  rcases hi with rfl | hi
  · exact size_le_makeTag_snd t name r
  · exact hi.1

lemma content?_makeTag :
    (t.makeTag name r).1.content? (t.makeTag name r).2 = some (r.content name) := by
  rw [content?, node?_makeTag, Option.map_some, ← contentOf_makeFragments t name r]
  refine congrArg some (contentOf_congr fun f hf => ?_)
  obtain ⟨text, hnode⟩ := node?_of_mem_fragments_makeFragments hf
  exact ((grows_make _ _).node?_of_some hnode).trans hnode.symm

/-- A tag may also be put in the place of an older node. -/
lemma content?_replace_makeFragments {id : Nat} (hid : id < t.nodes.size) :
    ((t.makeFragments name r).1.replace id (t.makeFragments name r).2).content? id =
      some (r.content name) := by
  have hlt := Nat.lt_of_lt_of_le hid (grows_makeFragments t name r).size_le
  rw [content?, node?_replace_self _ hlt, Option.map_some, ← contentOf_makeFragments t name r]
  refine congrArg some (contentOf_congr fun f hf => node?_replace_of_ne _ _ ?_)
  rw [fragments_makeFragments, List.mem_range'_1] at hf
  exact Nat.ne_of_gt (Nat.lt_of_lt_of_le hid hf.1)

end makeTag

end Tree

/-! ### Writing -/

/-- The written form of what a node says. -/
def Node.Content.write (types : TypeSyntax) : Node.Content → Text
  | .prose text | .fragment text => text
  | .tag name value => '@' :: name ++ afterBlank (value.write types)
  | .container name signature fragments description =>
    '@' :: name ++ afterBlank (signature.write types ++ '(' :: [',', ' '].intercalate fragments
      ++ [')'] ++ afterBlank description)

/-- A node is written by what it says. -/
lemma Tree.write_eq_of_content? {t : Tree} {types : TypeSyntax} {id : NodeId} {c : Node.Content}
    (h : t.content? id = some c) : t.write types id = c.write types := by
  obtain ⟨n, hn, rfl⟩ := Option.map_eq_some_iff.1 h
  cases n <;> simp [Tree.write, writePayload, hn, Node.tagName?, contentOf, Node.Content.write]

end DocComment
