import DocComment.Proofs.Block.Run
import DocComment.Proofs.Tree.Rewritten

/-!
# The names of tags

A tag is found under the name that it says (`tagsNamed_eq_filter`, `Tree.isTagNamed_iff`). A tag
that was read has a name made of the characters of tag names (`isTagName_of_content?_read`), so no
other name is ever found in a comment.
-/

namespace DocComment

open Text Token

/-! ### What names say -/

namespace Node.Content

/-- The name of a tag. -/
def tagName? : Node.Content → Option Text
  | .tag name _ | .container name .. => some name
  | .prose _ | .fragment _ => none

@[simp] lemma tagName?_content (name : Text) (r : Reading) :
    (r.content name).tagName? = some name := by
  cases r <;> rfl

lemma tagName?_ofPayload (rules : Rules) (name : Text) (ts : List Token) :
    (ofPayload rules name ts).tagName? = some name := by
  rcases ofPayload_cases rules name ts with h | h
  · rw [h, tagName?_content]
  · rw [h]
    rfl

end Node.Content

namespace Token

variable {x : Text} {i : Nat}

/-- A tag that is read from a text has a name made of the characters of tag names. -/
lemma isTagName_of_ofTokens {rules : Rules} {name : Text}
    (h : (Node.Content.ofTokens rules (scanFrom false i x)).tagName? = some name) :
    IsTagName name := by
  by_cases hmarker : ∀ t ∈ (scanFrom false i x).head?, t.kind ≠ .marker
  · rw [Node.Content.ofTokens_of_kind_ne rules hmarker] at h
    cases h
  · push Not at hmarker
    obtain ⟨t, ht, hk⟩ := hmarker
    obtain ⟨name', gap, j, z, hname, hscan, hgap, hz⟩ := exists_scanFrom_tag ht hk
    rw [hscan, Node.Content.ofTokens_tag rules _ _ name' hgap hz,
      Node.Content.tagName?_ofPayload] at h
    obtain rfl := Option.some.inj h
    exact hname

end Token

/-! ### Finding tags -/

/-- Whether a node is found under a name is seen from what it says. -/
lemma Tree.isTagNamed_iff {t : Tree} {id : NodeId} {c : Node.Content} (h : t.content? id = some c)
    (name : Text) : (t.node? id).any (Block.isTagNamed name) ↔ c.tagName? = some name := by
  obtain ⟨n, hn, rfl⟩ := Option.map_eq_some_iff.1 h
  rw [hn, Option.any_some, Block.isTagNamed, decide_eq_true_eq]
  cases n <;> rfl

namespace Block

/-- The tags of a name are the top nodes of that name. -/
lemma tagsNamed_eq_filter (b : Block) (name : Text) : b.tagsNamed name =
    b.tree.top.filter fun id => (b.tree.node? id).any (isTagNamed (bareName name)) := by
  rw [tagsNamed, Tree.topNodes]
  induction b.tree.top with
  | nil => rfl
  | cons id ids ih =>
    cases hn : b.tree.node? id with
    | none => simpa [hn] using ih
    | some n =>
      by_cases hname : isTagNamed (bareName name) n
      · simpa [hn, hname] using ih
      · simpa [hn, hname] using ih

/-- What a node that was read says is read from a text of its own. -/
lemma exists_body_of_content? {rules : Rules} {declaration? : Option Nat} {raw : Text} {id : NodeId}
    {c : Node.Content} (hid : id ∈ (read rules declaration? raw).tree.top)
    (hc : (read rules declaration? raw).tree.content? id = some c) :
    ∃ x : Text, Solid (scanFrom false 0 x) ∧
      c = Node.Content.ofTokens rules (scanFrom false 0 x) := by
  obtain ⟨s, hs⟩ := exists_segments (scan raw)
  have hcontents : (read rules declaration? raw).tree.contents =
      s.nodes.map fun n => some (Node.Content.ofTokens rules n.body) := by
    rw [← contents_ofTokens, hs]
    rfl
  have hmem : some c ∈ (read rules declaration? raw).tree.contents :=
    hc ▸ List.mem_map_of_mem hid
  rw [hcontents] at hmem
  obtain ⟨n, hn, hn'⟩ := List.mem_map.1 hmem
  obtain ⟨k, hk⟩ := List.mem_iff_getElem?.1 hn
  obtain rfl := Option.some.inj hn'
  have hbody := Segments.map_lexeme_body hs hk 0
  exact ⟨source n.body, n.solid.congr hbody, (Node.Content.ofTokens_congr rules hbody).symm⟩

/-- A tag that was read has a name made of the characters of tag names. -/
theorem isTagName_of_content?_read {rules : Rules} {declaration? : Option Nat} {raw name : Text}
    {id : NodeId} {c : Node.Content} (hid : id ∈ (read rules declaration? raw).tree.top)
    (hc : (read rules declaration? raw).tree.content? id = some c)
    (hname : c.tagName? = some name) : IsTagName name := by
  obtain ⟨x, -, rfl⟩ := exists_body_of_content? hid hc
  exact isTagName_of_ofTokens hname

end Block

end DocComment
