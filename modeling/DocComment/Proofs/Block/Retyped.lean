import Mathlib.Data.List.DropRight
import DocComment.Proofs.Block.Denoted
import DocComment.Proofs.Tag.Accepted
import DocComment.Proofs.Tag.Restored

/-!
# Changed types

A tag that was read as a type is given another one where it stands, and keeps what else it says
(`exists_retyped`). Any other tag is replaced by one that says the type alone. So the first tag of a
name keeps its place if it is typed, or if it is the only one and was read from the comment, and in
no other case (`changeType_act`).

The tag of a parameter is looked up by its variable, less the marks in front of it. A variable that
a tag names is found so, and the type of its first tag changed, if it starts with its `$`
(`paramType?_changeParamType`).
-/

namespace DocComment.Block

open Text

variable {b₀ b b' : Block} {name : Text} {id : NodeId} {type : TypeExpr}

/-! ### Tags with another type -/

/-- In the block `b'` the tag `id` has this type, and keeps its name and what else it says. All
other nodes are as they are in `b`. -/
structure Retyped (b b' : Block) (id : NodeId) (type : TypeExpr) : Prop where
  top : b'.tree.top = b.tree.top
  node? : ∀ i ≠ id, b'.tree.node? i = b.tree.node? i
  tagName? : (b'.tree.node? id).bind Node.tagName? = (b.tree.node? id).bind Node.tagName?
  type? : (b'.tree.node? id).bind Node.type? = some type
  value? : ∀ v, (b.tree.node? id).bind Node.value? = some (.typed v) →
    (b'.tree.node? id).bind Node.value? = some (.typed { v with type })

lemma any_isTagNamed_congr {n? n'? : Option Node}
    (h : n'?.bind Node.tagName? = n?.bind Node.tagName?) (name : Text) :
    n'?.any (isTagNamed name) = n?.any (isTagNamed name) := by
  have hany : ∀ n? : Option Node,
      n?.any (isTagNamed name) = decide (n?.bind Node.tagName? = some name) := by
    intro n?
    cases n? with
    | none => rfl
    | some n => rfl
  rw [hany, hany, h]

namespace Retyped

variable (h : Retyped b b' id type)

include h

lemma tagsNamed (name : Text) : b'.tagsNamed name = b.tagsNamed name := by
  rw [tagsNamed_eq_filter, tagsNamed_eq_filter, h.top]
  refine List.filter_congr fun i _ => ?_
  by_cases hi : i = id
  · rw [hi, any_isTagNamed_congr h.tagName?]
  · rw [h.node? i hi]

lemma typeOf? (hfirst : id ∈ (b.tagsNamed name).head?) : b'.typeOf? name = some type := by
  rw [Block.typeOf?, h.tagsNamed, Option.mem_def.1 hfirst]
  exact h.type?

end Retyped

/-- A tag that is changed in place leaves all other top nodes as they are. -/
lemma keeps_withNode (h : b.tree.Layered) (hid : id ∈ b.tree.top) (n : Node) {i : NodeId}
    (hne : i ≠ id) : Keeps b (b.withNode id n) i := by
  have hother : ∀ j ∈ i :: b.tree.fragments i, j ≠ id := by
    refine List.forall_mem_cons.2 ⟨hne, fun j hj => ?_⟩
    rintro rfl
    exact h.not_mem_top hj hid
  exact ⟨fun j hj => Tree.node?_replace_of_ne _ _ (hother j hj),
    fun j hj key => Attribute.Table.get?_markChanged_of_ne _ (hother j hj) key⟩

/-- A typed tag is given another type where it stands. -/
lemma exists_retyped {tagName : Text} {v : TypedValue} (htop : id ∈ b.tree.top)
    (hnode : b.tree.node? id = some (.tag tagName (.typed v))) (name : Text) (type : TypeExpr) :
    ∃ b', outcome (changeType id name type) b = (.ok id, b') ∧ Retyped b b' id type ∧
      (b.tree.Layered → ∀ i ≠ id, Keeps b b' i) := by
  have hvalue : ∀ v', (b.tree.node? id).bind Node.value? = some (.typed v') → v = v' := by
    intro v' hv'
    simpa [hnode, Node.value?] using hv'
  have hout : outcome (changeType id name type) b = _ := outcome_changeType_typed b htop hnode
  split_ifs at hout with hsame
  · refine ⟨_, hout, ⟨rfl, fun _ _ => rfl, rfl, ?_, fun v' hv' => ?_⟩, fun _ i _ => Keeps.refl b i⟩
    · simp [hnode, Node.type?, TagValue.type?, hsame]
    · rw [hv', ← hvalue v' hv', ← hsame]
  · have hnew : (b.withNode id (.tag tagName (.typed { v with type }))).tree.node? id =
        some (.tag tagName (.typed { v with type })) :=
      Tree.node?_replace_self _ (Tree.lt_size_of_node? hnode)
    refine ⟨_, hout, ⟨rfl, fun i hi => Tree.node?_replace_of_ne _ _ hi, ?_, ?_, fun v' hv' => ?_⟩,
      fun h i hne => keeps_withNode h htop _ hne⟩
    · rw [hnew, hnode]
      rfl
    · rw [hnew]
      rfl
    · rw [hnew, ← hvalue v' hv']
      rfl

/-- A tag that is not typed is read anew as a type. -/
lemma retyped_rereadTag {n : Node} (hnode : b.tree.node? id = some n)
    (hname : n.tagName? = some name) (hnot : ∀ v, n.value? ≠ some (.typed v)) :
    Retyped b (b.rereadTag id name (.value (.typed ⟨type, none, []⟩))) id type := by
  have hdiffer : n ≠ .tag name (.typed ⟨type, none, []⟩) := by
    rintro rfl
    exact hnot _ rfl
  have hnew : (b.rereadTag id name (.value (.typed ⟨type, none, []⟩))).tree =
      ((b.tree.markSynthesized []).replace id
        (.tag name (.typed ⟨type, none, []⟩))).markChanged id := by
    rw [rereadTag, Tree.makeFragments]
    dsimp only
    rw [if_neg (by simp [hnode, hdiffer])]
    rfl
  have hself := Tree.node?_replace_self (t := b.tree.markSynthesized [])
    (.tag name (.typed ⟨type, none, []⟩)) (Tree.lt_size_of_node? hnode)
  refine ⟨by rw [hnew]; rfl, fun i hi => ?_, ?_, ?_, fun v hv => ?_⟩
  · rw [hnew, Tree.node?_markChanged, Tree.node?_replace_of_ne _ _ hi]
    rfl
  · rw [hnew, Tree.node?_markChanged, hself, hnode]
    exact hname.symm
  · rw [hnew, Tree.node?_markChanged, hself]
    rfl
  · rw [hnode] at hv
    exact absurd hv (hnot v)

/-! ### The first tag of a name -/

/-- What a change of the type of the first tag of a name does to `b`, which comes from `b₀`. -/
structure ChangesFirst (b₀ b b' : Block) (name : Text) (type : TypeExpr) (id : NodeId) : Prop where
  keeps : ∀ i ∈ b.tree.top, i ∉ b.tagsNamed name → i ∈ b'.tree.top ∧ Keeps b b' i
  adds : b.tagsNamed name = [] → b'.tree.top = b.tree.top ++ [id]
  retyped_iff : ∀ first ∈ (b.tagsNamed name).head?, (id = first ∧ Retyped b b' first type) ↔
    (∃ v, (b.tree.node? first).bind Node.value? = some (.typed v)) ∨
      b.tagsNamed name = [first] ∧ first ∈ b₀.tree.top

lemma exists_node?_of_value? {v : TagValue} (h : (b.tree.node? id).bind Node.value? = some v) :
    ∃ tagName, b.tree.node? id = some (.tag tagName v) := by
  obtain ⟨n, hn, hv⟩ := Option.bind_eq_some_iff.1 h
  cases n with
  | tag tagName value => exact ⟨tagName, by rw [hn, ← Option.some.inj hv]⟩
  | _ => cases hv

lemma typeOf?_of_content? {r : Reading} (hfirst : id ∈ (b.tagsNamed name).head?)
    (h : b.tree.content? id = some (r.content name)) : b.typeOf? name = r.type? := by
  rw [typeOf?, Option.mem_def.1 hfirst]
  exact Tree.type?_of_content? h

lemma checkContent_text (h : type.IsRestored) : checkContent type.text = .ok () :=
  checkContent_of_closes h.isWritten.closes

lemma trim_text (h : type.IsRestored) : trim type.text = type.text :=
  trim_eq h.isWritten.isWhiteSpace_head? h.isWritten.isWhiteSpace_getLast?

/-- A first tag that gets another type where it stands is answered. -/
lemma Retyped.changesFirst (h : Retyped b b' id type) (hfirst : id ∈ (b.tagsNamed name).head?)
    (hkeeps : ∀ i ∈ b.tree.top, i ≠ id → Keeps b b' i)
    (hplace : (∃ v, (b.tree.node? id).bind Node.value? = some (.typed v)) ∨
      b.tagsNamed name = [id] ∧ id ∈ b₀.tree.top) :
    ChangesFirst b₀ b b' name type id where
  keeps i hi hnot := by
    have hmem := List.mem_of_mem_head? hfirst
    exact ⟨h.top ▸ hi, hkeeps i hi (ne_of_mem_of_not_mem hmem hnot).symm⟩
  adds hnil := by
    rw [hnil] at hfirst
    cases hfirst
  retyped_iff first hfirst' := by
    obtain rfl : id = first := Option.mem_unique hfirst hfirst'
    exact iff_of_true ⟨rfl, h⟩ hplace

/-- A tag at the end, for which the old ones made way, does not have the place of the first one. -/
lemma changesFirst_pushTag (hlayered : b.tree.Layered) (hbare : name.head? ≠ some '@')
    {first : NodeId} (hfirst : first ∈ (b.tagsNamed name).head?)
    (hnot : ¬ ((∃ v, (b.tree.node? first).bind Node.value? = some (.typed v)) ∨
      b.tagsNamed name = [first] ∧ first ∈ b₀.tree.top)) :
    let b' := (b.dropTags name).1.pushTag name (.value (.typed ⟨type, none, []⟩))
    b'.1.typeOf? name = some type ∧ ChangesFirst b₀ b b'.1 name type b'.2 := by
  have hself := bareName_eq_self hbare
  have hmem : first ∈ b.tagsNamed name := List.mem_of_mem_head? hfirst
  obtain ⟨-, n, hn, -⟩ := mem_tagsNamed hmem
  obtain ⟨hreplaced, hnew, -⟩ :=
    replaced_pushTag hlayered name (.value (.typed ⟨type, none, []⟩))
  rw [hself] at hreplaced hnew
  refine ⟨typeOf?_of_content? (by rw [hreplaced.tagsNamed]; rfl) hreplaced.content?,
    hreplaced.replacesOnly.keeps, fun hnil => absurd hnil (List.ne_nil_of_mem hmem),
    fun first' hfirst' => ?_⟩
  obtain rfl : first = first' := Option.mem_unique hfirst hfirst'
  refine iff_of_false ?_ hnot
  rintro ⟨heq, -⟩
  rw [heq] at hnew
  exact absurd hnew (Nat.not_le.2 (Tree.lt_size_of_node? hn))

section

variable (hderives : Derives b₀ b) {spans : List Span} {cs : List Node.Content}
  (h₀ : b₀.tree.Unedited spans cs) (hlayered : b.tree.Layered)
  (hname : checkName name = .ok name) (hbare : name.head? ≠ some '@')
  (hwrite : b.rules.types.write type = type.text) (htype : type.IsRestored)
  (hresolve : b.rules.resolve name type.text = .value (.typed ⟨type, none, []⟩))

include hderives h₀ hlayered hname hbare hwrite htype hresolve

/-- A first tag that is not typed makes way with all others of its name, unless it is the only one
and was read from the comment. -/
lemma changesFirst_replaceTag {first : NodeId} (hfirst : first ∈ (b.tagsNamed name).head?)
    (hnot : ∀ v, (b.tree.node? first).bind Node.value? ≠ some (.typed v)) :
    ∃ id b', outcome (changeType first name type) b = (.ok id, b') ∧
      b'.typeOf? name = some type ∧ ChangesFirst b₀ b b' name type id := by
  have hself := bareName_eq_self hbare
  have hmem : first ∈ b.tagsNamed name := List.mem_of_mem_head? hfirst
  obtain ⟨htop, n, hn, htag⟩ := mem_tagsNamed hmem
  rw [hself] at htag
  have hsynthesized := hderives.isSynthesized_iff h₀ htop
  have hout : outcome (changeType first name type) b = outcome (replaceTag name type.text) b := by
    rw [outcome_changeType, hwrite]
    split
    · next v hnode =>
      refine absurd ?_ (hnot v)
      rw [hnode]
      rfl
    · rfl
  have hcases := replaceTag_cases (by rwa [hself]) (by rwa [hself]) (checkContent_text htype) b
  rw [hself, trim_text htype, hresolve, ← hout] at hcases
  rcases hcases with ⟨only, hsole, hread, hout⟩ | ⟨hmade, hout⟩
  · obtain rfl : only = first := by simpa [hsole] using hfirst
    have hretyped : Retyped b _ only type :=
      retyped_rereadTag hn htag fun v hv => hnot v (by rw [hn]; exact hv)
    have hold : only ∈ b₀.tree.top := by
      by_contra hnew
      rw [hsynthesized.2 hnew] at hread
      cases hread
    exact ⟨_, _, hout, hretyped.typeOf? hfirst, hretyped.changesFirst hfirst
      (fun i hi hne => keeps_rereadTag _ _ hlayered htop hi hne) (.inr ⟨hsole, hold⟩)⟩
  · refine ⟨_, _, hout, changesFirst_pushTag hlayered hbare hfirst ?_⟩
    rintro (⟨v, hv⟩ | ⟨hsole, hold⟩)
    · exact hnot v hv
    · exact hsynthesized.1 (hmade first hsole) hold

/-- The type of the first tag of a name is changed where it stands, or with all tags of the name, or
a tag is added. -/
lemma changesFirst_changeFirstType : ∃ id b', outcome (changeFirstType name type) b = (.ok id, b') ∧
    b'.typeOf? name = some type ∧ ChangesFirst b₀ b b' name type id := by
  have hself := bareName_eq_self hbare
  rw [outcome_changeFirstType]
  cases hfirst : b.tagsNamed name with
  | nil =>
    have hout := outcome_addTag b name type.text
    simp only [checkTag_eq_ok hname (checkContent_text htype), trim_text htype, hresolve] at hout
    have htags := tagsNamed_pushTag hlayered name (.value (.typed ⟨type, none, []⟩))
    rw [hself, hfirst, List.nil_append] at htags
    dsimp only
    rw [hwrite]
    refine ⟨_, _, hout, ?_, fun i hi _ => ⟨?_, keeps_pushTag _ _ hlayered hi⟩,
      fun _ => by simp [pushTag], ?_⟩
    · exact typeOf?_of_content? (by rw [htags]; rfl) (content?_pushTag _ _ b)
    · exact List.mem_append_left _ hi
    · intro first hnone
      rw [hfirst] at hnone
      cases hnone
  | cons first rest =>
    have hhead : first ∈ (b.tagsNamed name).head? := by
      rw [hfirst]
      rfl
    by_cases htyped : ∃ v, (b.tree.node? first).bind Node.value? = some (.typed v)
    · obtain ⟨v, hv⟩ := htyped
      obtain ⟨tagName, hnode⟩ := exists_node?_of_value? hv
      have htop := (mem_tagsNamed (List.mem_of_mem_head? hhead)).1
      obtain ⟨b', hout, hretyped, hkeeps⟩ := exists_retyped htop hnode name type
      exact ⟨first, b', hout, hretyped.typeOf? hhead,
        hretyped.changesFirst hhead (fun i _ hne => hkeeps hlayered i hne) (.inl ⟨v, hv⟩)⟩
    · exact changesFirst_replaceTag hderives h₀ hlayered hname hbare hwrite htype hresolve hhead
        fun v hv => htyped ⟨v, hv⟩

end

/-- A type that is read back can be made the type that is returned, and that of a variable, whatever
has been done to the block. All other tags are kept but for those of the same name. The first of
these is changed in place if it is typed, or if it is the only one and was read from the comment. -/
theorem changeType_act (declaration? : Option Nat) (raw? : Option Text) (as : List Action)
    {type : TypeExpr} (htype : type.IsRestored) :
    let b₀ := ofComment .standard declaration? raw?
    let b := b₀.act as
    (∃ id b', outcome (changeReturnType type) b = (.ok id, b') ∧ b'.returnType? = some type ∧
      ChangesFirst b₀ b b' "return".toList type id) ∧
    ∃ id b', outcome (changeVarType type) b = (.ok id, b') ∧ b'.varType? = some type ∧
      ChangesFirst b₀ b b' "var".toList type id := by
  intro b₀ b
  obtain ⟨spans, cs, h₀⟩ := exists_unedited .standard declaration? raw?
  change b₀.tree.Unedited spans cs at h₀
  have hderives : Derives b₀ b := derives_act h₀ as
  have hlayered : b.tree.Layered := layered_act h₀.forest.layered as
  have hrules : b.rules = .standard := by
    rw [hderives.rules, show b₀ = _ from ofComment_eq_read .standard declaration? raw?]
    rfl
  have hwrite : b.rules.types.write type = type.text := by
    rw [hrules]
    rfl
  constructor
  · refine changesFirst_changeFirstType hderives h₀ hlayered (by rfl) (by decide) hwrite htype ?_
    rw [hrules, Rules.resolve_return, TypedValue.read?_type htype]
    rfl
  · refine changesFirst_changeFirstType hderives h₀ hlayered (by rfl) (by decide) hwrite htype ?_
    rw [hrules, Rules.resolve_var, TypedValue.read?_type htype]
    rfl

/-- The first of two tags is given another type, and keeps its description. -/
theorem changeType_act_description :
    let b := (ofComment .standard none
      (some "/**\n * @return int The sum.\n * @return int\n */".toList)).act []
    let type : TypeExpr := .name "string".toList
    type.IsRestored ∧ ∃ b', outcome (changeReturnType type) b = (.ok 0, b') ∧
      b'.returnType? = some type ∧ b'.tree.top = [0, 1] ∧
      (b'.tree.node? 0).bind Node.value? = some (.typed ⟨type, none, "The sum.".toList⟩) := by
  intro b type
  have htype : type.IsRestored := by decide +kernel
  have htags : 0 ∈ (b.tagsNamed "return".toList).head? := by decide +kernel
  have hvalue : (b.tree.node? 0).bind Node.value? =
      some (.typed ⟨.name "int".toList, none, "The sum.".toList⟩) := by decide +kernel
  obtain ⟨⟨id, b', hout, hreturn, hchanges⟩, -⟩ := changeType_act none
    (some "/**\n * @return int The sum.\n * @return int\n */".toList) [] htype
  obtain ⟨rfl, hretyped⟩ := (hchanges.retyped_iff 0 htags).2 (.inl ⟨_, hvalue⟩)
  have htop : b.tree.top = [0, 1] := by decide +kernel
  exact ⟨htype, b', hout, hreturn, hretyped.top.trans htop, hretyped.value? _ hvalue⟩

/-- A tag without a type makes way with the typed one behind it, and the description is lost. -/
theorem not_retyped_return_without_type :
    let b := read .standard none "/**\n * @return\n * @return int The sum.\n */".toList
    let type : TypeExpr := .name "string".toList
    type.IsRestored ∧ b.tagsNamed "return".toList = [0, 1] ∧
      (outcome (changeReturnType type) b).1 = .ok 2 ∧
      (outcome (changeReturnType type) b).2.tree.top = [2] ∧
      ¬ ∃ b', outcome (changeReturnType type) b = (.ok 0, b') ∧ Retyped b b' 0 type := by
  intro b type
  have hout : (outcome (changeReturnType type) b).1 = .ok 2 := by decide +kernel
  refine ⟨by decide +kernel, by decide +kernel, hout, by decide +kernel, ?_⟩
  rintro ⟨b', hsame, -⟩
  rw [hsame] at hout
  cases hout

/-! ### Parameters -/

variable {param : Text}

/-- Behind the `$` of a parameter no other mark is dropped. -/
lemma bareVariable_eq (h : ∀ c ∈ (param.dropWhile (· = '$')).head?, c ≠ '&' ∧ c ≠ '.') :
    bareVariable param = param.dropWhile (· = '$') := by
  have hdollars : ∀ c ∈ param.takeWhile (· = '$'), c = '&' || c = '.' || c = '$' := by
    intro c hc
    have hdollar := List.mem_takeWhile_imp hc
    obtain rfl : c = '$' := by simpa using hdollar
    rfl
  rw [bareVariable]
  conv_lhs => rw [← List.takeWhile_append_dropWhile (p := (· = '$')) (l := param)]
  rw [List.dropWhile_append_of_pos hdollars]
  cases hrest : param.dropWhile (· = '$') with
  | nil => rfl
  | cons c rest =>
    have hne := List.head_dropWhile_not (· = '$') (l := param) (by simp [hrest])
    rw [List.dropWhile_cons_of_neg]
    rw [hrest] at h
    obtain ⟨hand, hdot⟩ := h c rfl
    simpa [hrest, hand, hdot] using hne

/-- A tag that names a variable is typed. -/
lemma exists_typed_of_variableOf? {v : Text} (h : b.variableOf? id = some v) :
    ∃ w, (b.tree.node? id).bind Node.value? = some (.typed w) := by
  obtain ⟨n, hn, h⟩ := Option.bind_eq_some_iff.1 h
  obtain ⟨value, hvalue, hvar⟩ := Option.bind_eq_some_iff.1 h
  cases value with
  | generic raw => cases hvar
  | typed w => exact ⟨w, by rw [hn]; exact hvalue⟩

lemma variableOf?_eq (b : Block) (id : NodeId) :
    b.variableOf? id = ((b.tree.node? id).bind Node.value?).bind TagValue.var? := by
  rw [Option.bind_assoc]
  rfl

/-- A tag keeps its variable, and so do all others. -/
lemma Retyped.variableOf? (h : Retyped b b' id type) {tagName : Text} {w : TypedValue}
    (hnode : b.tree.node? id = some (.tag tagName (.typed w))) (i : NodeId) :
    b'.variableOf? i = b.variableOf? i := by
  have hvalue : (b.tree.node? id).bind Node.value? = some (.typed w) := by
    rw [hnode]
    rfl
  rw [variableOf?_eq, variableOf?_eq]
  by_cases hi : i = id
  · rw [hi, h.value? w hvalue, hvalue]
    rfl
  · rw [h.node? i hi]

/-- The tag of a parameter is the first one that names it with whatever marks. -/
lemma paramTag?_eq (hmarks : ∀ c ∈ (param.dropWhile (· = '$')).head?, c ≠ '&' ∧ c ≠ '.')
    (b : Block) : b.paramTag? param = (b.tagsNamed "param".toList).find? fun id =>
      (b.variableOf? id).any fun v => bareVariable v = bareVariable param := by
  rw [bareVariable_eq hmarks]
  rfl

/-- A variable that some tag names has a first tag that names it with whatever marks, and that tag
is typed. -/
lemma exists_find?_of_mem_paramNames (hparam : param ∈ b.paramNames) :
    ∃ id tagName w, (b.tagsNamed "param".toList).find? (fun id =>
        (b.variableOf? id).any fun v => bareVariable v = bareVariable param) = some id ∧
      id ∈ b.tree.top ∧ b.tree.node? id = some (.tag tagName (.typed w)) := by
  obtain ⟨own, hown, hvar⟩ := List.mem_filterMap.1 hparam
  have hsome : ((b.tagsNamed "param".toList).find? fun id =>
      (b.variableOf? id).any fun v => bareVariable v = bareVariable param).isSome := by
    rw [List.find?_isSome]
    exact ⟨own, hown, by simp [hvar]⟩
  obtain ⟨id, hid⟩ := Option.isSome_iff_exists.1 hsome
  have hany := List.find?_some hid
  obtain ⟨v, hv⟩ := Option.isSome_iff_exists.1 (Option.isSome_of_any hany)
  obtain ⟨w, hvalue⟩ := exists_typed_of_variableOf? hv
  obtain ⟨tagName, hnode⟩ := exists_node?_of_value? hvalue
  exact ⟨id, tagName, w, hid, (mem_tagsNamed (List.mem_of_find?_eq_some hid)).1, hnode⟩

/-- A parameter that a tag names with its `$` in front is found by this name, under the first tag
that names it with whatever marks, and its type is changed there. A name of nothing but `$` is
rejected. -/
theorem paramType?_changeParamType (b : Block) (hparam : param ∈ b.paramNames)
    (hmarks : ∀ c ∈ (param.dropWhile (· = '$')).head?, c ≠ '&' ∧ c ≠ '.') :
    ∃ id t, (b.tagsNamed "param".toList).find? (fun id =>
        (b.variableOf? id).any fun v => bareVariable v = bareVariable param) = some id ∧
      (b.tree.node? id).bind Node.type? = some t ∧ b.paramType? param = some t ∧
      ∀ type, (param.dropWhile (· = '$') = [] →
          outcome (changeParamType param type) b = (.error .emptyParameterName, b)) ∧
        (param.dropWhile (· = '$') ≠ [] →
          ∃ b', outcome (changeParamType param type) b = (.ok id, b') ∧
            Retyped b b' id type ∧ b'.paramType? param = some type) := by
  obtain ⟨id, tagName, w, hid, htop, hnode⟩ := exists_find?_of_mem_paramNames hparam
  have htype : (b.tree.node? id).bind Node.type? = some w.type := by
    rw [hnode]
    rfl
  refine ⟨id, w.type, hid, htype, ?_, fun type => ⟨fun hnil => ?_, fun hne => ?_⟩⟩
  · rw [paramType?, paramTag?_eq hmarks, hid]
    exact htype
  · rw [outcome_changeParamType]
    exact if_pos hnil
  · obtain ⟨b', hout, hretyped, -⟩ := exists_retyped htop hnode "param".toList type
    have hfound : b.paramTag? (param.dropWhile (· = '$')) = some id := by
      rw [← hid, ← paramTag?_eq hmarks, paramTag?, paramTag?, List.dropWhile_idempotent]
    refine ⟨b', ?_, hretyped, ?_⟩
    · rw [outcome_changeParamType]
      dsimp only
      rw [if_neg hne, hfound]
      exact hout
    · rw [paramType?, paramTag?_eq hmarks, hretyped.tagsNamed]
      simp only [hretyped.variableOf? hnode]
      rw [hid]
      exact hretyped.type?

/-- The second parameter is found and changed behind one with marks. -/
theorem paramType?_changeParamType_behind_marks :
    let b := read .standard none "/**\n * @param int ...$x\n * @param A $y Next.\n */".toList
    let param := "$y".toList
    let type : TypeExpr := .name "B".toList
    param ∈ b.paramNames ∧ (∀ c ∈ (param.dropWhile (· = '$')).head?, c ≠ '&' ∧ c ≠ '.') ∧
      b.paramType? param = some (.name "A".toList) ∧
      ∃ b', outcome (changeParamType param type) b = (.ok 1, b') ∧ b'.tree.top = [0, 1] ∧
        b'.paramType? param = some type := by
  intro b param type
  have hparam : param ∈ b.paramNames := by decide +kernel
  have hmarks : ∀ c ∈ (param.dropWhile (· = '$')).head?, c ≠ '&' ∧ c ≠ '.' := by
    rintro c ⟨⟩
    decide
  have htag : (b.tagsNamed "param".toList).find? (fun id =>
      (b.variableOf? id).any fun v => bareVariable v = bareVariable param) = some 1 := by
    decide +kernel
  have htop : b.tree.top = [0, 1] := by decide +kernel
  obtain ⟨id, t, hid, -, -, hchange⟩ := paramType?_changeParamType b hparam hmarks
  obtain rfl : 1 = id := Option.some.inj (htag.symm.trans hid)
  obtain ⟨b', hout, hretyped, hfound⟩ := (hchange type).2 (by decide)
  exact ⟨hparam, hmarks, by decide +kernel, b', hout, hretyped.top.trans htop, hfound⟩

/-- Marks count for nothing, so a tag of `&$x` answers for `$x` if it stands in front. -/
theorem paramType?_ne_type_of_own_tag :
    let b := read .standard none "/**\n * @param int &$x\n * @param string $x\n */".toList
    let param := "$x".toList
    param ∈ b.paramNames ∧ b.paramType? param = some (.name "int".toList) ∧
      b.paramType? param ≠ ((b.tagsNamed "param".toList).find? fun id =>
        b.variableOf? id = some param).bind fun id => (b.tree.node? id).bind Node.type? := by
  decide +kernel

end DocComment.Block
