import Mathlib.Data.List.Basic
import Mathlib.Tactic.Common
import DocComment.Tag.Rules

/-!
# Tags with a vendor in front

Two names are read alike, whatever the payload, if the same rule for types comes first for both and
both are names of methods or none is (`Vocabulary.resolve_eq_iff`). So a vendor in front of a name
makes no difference unless the name that results is also another vendor's name of a variable tag,
or is a name of methods by chance (`Vocabulary.resolve_vendor_append_iff`).
-/

namespace DocComment

open Text

/-! ### Payloads that are declined -/

/-- Whether a payload is read does not depend on whether it may have a variable. -/
lemma TypedValue.isSome_read? (types : TypeSyntax) (withVariable : Bool) (payload : Text) :
    (read? types withVariable payload).isSome = (read? types true payload).isSome := by
  unfold read?
  cases types.read? payload with
  | none => rfl
  | some p =>
    dsimp only [Option.bind_eq_bind, Option.bind_some]
    split_ifs <;> rfl

lemma NamePattern.matches_anyOf {names : List Text} {name : Text} :
    (anyOf names).matches name ↔ name ∈ names := by
  simp [NamePattern.matches]

lemma NamePattern.matches_method {name : Text} : method.matches name ↔ name ∈ methodNames := by
  simp [NamePattern.matches]

/-- What the first rule declines is left to the others. -/
lemma Rules.findSome?_cons_eq_or (read? : Rule → Option Reading) (r : Rule) (rs : List Rule) :
    (r :: rs).findSome? read? = (read? r).or (rs.findSome? read?) := by
  rw [← List.singleton_append, List.findSome?_append, List.findSome?_singleton]

namespace Vocabulary

variable {v : Vocabulary} {x y : Text}

lemma mem_expand {prefixes names : List Text} :
    x ∈ expand prefixes names ↔ x ∈ names ∨ ∃ q ∈ prefixes, ∃ m ∈ names, q ++ m = x := by
  simp only [expand, List.mem_flatMap, List.mem_cons, List.mem_map]
  constructor
  · rintro ⟨m, hm, rfl | ⟨q, hq, rfl⟩⟩
    · exact .inl hm
    · exact .inr ⟨q, hq, m, hm, rfl⟩
  · rintro (hx | ⟨q, hq, m, hm, rfl⟩)
    · exact ⟨x, hx, .inl rfl⟩
    · exact ⟨m, hm, .inr ⟨q, hq, rfl⟩⟩

/-! ### The rules that a name fits -/

/-- Whether the payloads of a tag may have a variable, if they have a type at all. A name that is
spelled in both ways goes with the first. -/
def withVariable? (v : Vocabulary) (name : Text) : Option Bool :=
  if (NamePattern.anyOf (expand v.vendorPrefixes v.variableTags)).matches name then some true
  else if (NamePattern.anyOf (expand v.vendorPrefixes v.typedTags)).matches name then some false
  else none

section

variable {name : Text}

lemma withVariable?_of_variable (h : name ∈ expand v.vendorPrefixes v.variableTags) :
    v.withVariable? name = some true :=
  if_pos (NamePattern.matches_anyOf.2 h)

lemma withVariable?_of_typed (hnot : name ∉ expand v.vendorPrefixes v.variableTags)
    (h : name ∈ expand v.vendorPrefixes v.typedTags) : v.withVariable? name = some false := by
  rw [withVariable?, if_neg (mt NamePattern.matches_anyOf.1 hnot),
    if_pos (NamePattern.matches_anyOf.2 h)]

lemma withVariable?_of_not_mem (hnot : name ∉ expand v.vendorPrefixes v.variableTags)
    (hnot' : name ∉ expand v.vendorPrefixes v.typedTags) : v.withVariable? name = none := by
  rw [withVariable?, if_neg (mt NamePattern.matches_anyOf.1 hnot),
    if_neg (mt NamePattern.matches_anyOf.1 hnot')]

end

/-- A payload is read as a type, then as a method, or else kept as it is. -/
lemma resolve_rules (v : Vocabulary) (types : TypeSyntax) (name payload : Text) :
    (v.rules types).resolve name payload =
      (((v.withVariable? name).bind fun withVariable =>
          (TypedValue.read? types withVariable payload).map (Reading.value ∘ .typed)).or
        (if name ∈ methodNames then (MethodPayload.read? types payload).map .method
          else none)).getD (.value (.generic payload)) := by
  have hdeclined : TypedValue.read? types true payload = none →
      TypedValue.read? types false payload = none := by
    rw [← Option.not_isSome_iff_eq_none, ← Option.not_isSome_iff_eq_none,
      TypedValue.isSome_read? types false]
    exact id
  rw [Rules.resolve]
  congr 1
  simp only [rules, Rules.findSome?_cons_eq_or, List.findSome?_nil, Option.or_none,
    NamePattern.matches_anyOf, NamePattern.matches_method]
  by_cases hvar : name ∈ expand v.vendorPrefixes v.variableTags
  · rw [withVariable?_of_variable hvar, if_pos hvar, Option.bind_some]
    cases hread : TypedValue.read? types true payload with
    | some value => rfl
    | none =>
      -- The other rule for types declines the payload too.
      rw [hdeclined hread, Option.map_none, ite_self, Option.none_or]
  · rw [if_neg hvar, Option.none_or]
    by_cases htyped : name ∈ expand v.vendorPrefixes v.typedTags
    · rw [withVariable?_of_typed hvar htyped, if_pos htyped, Option.bind_some]
    · rw [withVariable?_of_not_mem hvar htyped, if_neg htyped, Option.bind_none]

/-- A payload tells the rules for types apart if its variable may also be a description. -/
lemma exists_payload_of_types : ∃ payload a b,
    TypedValue.read? .standard true payload = some a ∧
      TypedValue.read? .standard false payload = some b ∧ a ≠ b ∧
      MethodPayload.read? .standard payload = none :=
  ⟨"int $v".toList, ⟨.name "int".toList, some "$v".toList, []⟩,
    ⟨.name "int".toList, none, "$v".toList⟩, by decide +kernel⟩

/-- A method is no type with white space or nothing behind it. -/
lemma exists_payload_of_method : ∃ payload m, MethodPayload.read? .standard payload = some m ∧
    ∀ withVariable, TypedValue.read? .standard withVariable payload = none :=
  ⟨"f()".toList, ⟨⟨false, none, ['f']⟩, [], []⟩, by decide +kernel⟩

section

variable (h : ∀ payload,
  (v.rules .standard).resolve x payload = (v.rules .standard).resolve y payload)

include h

lemma withVariable?_eq_of_resolve : v.withVariable? x = v.withVariable? y := by
  obtain ⟨payload, a, b, ha, hb, hne, hmethod⟩ := exists_payload_of_types
  have hread := h payload
  rw [resolve_rules, resolve_rules, hmethod, Option.map_none, ite_self, ite_self, Option.or_none,
    Option.or_none] at hread
  rcases hx : v.withVariable? x with _ | _ | _ <;> rcases hy : v.withVariable? y with _ | _ | _ <;>
    simp [hx, hy, ha, hb, hne, hne.symm] at hread ⊢

lemma mem_methodNames_iff_of_resolve : x ∈ methodNames ↔ y ∈ methodNames := by
  obtain ⟨payload, m, hmethod, htyped⟩ := exists_payload_of_method
  have hread := h payload
  rw [resolve_rules, resolve_rules, hmethod] at hread
  simp only [htyped, Option.map_none, Option.bind_fun_none, Option.none_or, Option.map_some]
    at hread
  by_cases hx : x ∈ methodNames
  · by_cases hy : y ∈ methodNames
    · exact iff_of_true hx hy
    · simp [hx, hy] at hread
  · by_cases hy : y ∈ methodNames
    · simp [hx, hy] at hread
    · exact iff_of_false hx hy

end

/-- Names are read alike if they fit the same rule for types first, and the one for methods both or
not at all. -/
theorem resolve_eq_iff :
    (∀ types payload, (v.rules types).resolve x payload = (v.rules types).resolve y payload) ↔
      v.withVariable? x = v.withVariable? y ∧ (x ∈ methodNames ↔ y ∈ methodNames) := by
  constructor
  · intro h
    exact ⟨withVariable?_eq_of_resolve (h .standard), mem_methodNames_iff_of_resolve (h .standard)⟩
  · rintro ⟨hform, hmethod⟩ types payload
    rw [resolve_rules, resolve_rules, hform]
    simp only [hmethod]

/-! ### Vendors in front of names -/

section

variable {p n : Text} (hv : ∀ q ∈ v.vendorPrefixes, ∀ m ∈ v.variableTags ++ v.typedTags, ¬ q <+: m)

include hv

/-- No vendor stands in front of a listed name yet. -/
lemma mem_expand_of_listed {names : List Text} (hn : n ∈ v.variableTags ++ v.typedTags) :
    n ∈ expand v.vendorPrefixes names ↔ n ∈ names := by
  rw [mem_expand, or_iff_left]
  rintro ⟨q, hq, m, -, rfl⟩
  exact hv q hq _ hn (List.prefix_append q m)

/-- A name with a vendor in front is not listed. -/
lemma mem_expand_of_vendor (hp : p ∈ v.vendorPrefixes) {names : List Text}
    (hnames : names ⊆ v.variableTags ++ v.typedTags) :
    p ++ n ∈ expand v.vendorPrefixes names ↔
      ∃ q ∈ v.vendorPrefixes, ∃ m ∈ names, q ++ m = p ++ n := by
  rw [mem_expand, or_iff_right]
  intro hn
  exact hv p hp _ (hnames hn) (List.prefix_append p n)

omit hv in
lemma withVariable?_append_of_variable (hp : p ∈ v.vendorPrefixes) (hn : n ∈ v.variableTags) :
    v.withVariable? (p ++ n) = v.withVariable? n := by
  rw [withVariable?_of_variable (mem_expand.2 (.inl hn)),
    withVariable?_of_variable (mem_expand.2 (.inr ⟨p, hp, n, hn, rfl⟩))]

/-- The rule for tags with variables comes first. -/
lemma withVariable?_append_iff_of_typed (hp : p ∈ v.vendorPrefixes) (hn : n ∈ v.typedTags)
    (hnot : n ∉ v.variableTags) : v.withVariable? (p ++ n) = v.withVariable? n ↔
      ∀ q ∈ v.vendorPrefixes, ∀ m ∈ v.variableTags, q ++ m ≠ p ++ n := by
  have hself : v.withVariable? n = some false := by
    refine withVariable?_of_typed ?_ (mem_expand.2 (.inl hn))
    rwa [mem_expand_of_listed hv (List.mem_append_right _ hn)]
  have hspelled := mem_expand_of_vendor (n := n) hv hp (List.subset_append_left _ v.typedTags)
  rw [hself]
  constructor
  · intro h q hq m hm heq
    rw [withVariable?_of_variable (hspelled.2 ⟨q, hq, m, hm, heq⟩)] at h
    cases h
  · intro h
    refine withVariable?_of_typed (fun hmem => ?_) (mem_expand.2 (.inr ⟨p, hp, n, hn, rfl⟩))
    obtain ⟨q, hq, m, hm, heq⟩ := hspelled.1 hmem
    exact h q hq m hm heq

/-- A vendor in front of a name makes no difference to any payload just if the name that results is
no other vendor's name of a tag that is read first, and no name of methods by chance. -/
theorem resolve_vendor_append_iff (hp : p ∈ v.vendorPrefixes)
    (hmethod : n ∈ methodNames → p ++ n ∈ methodNames) :
    (∀ types payload,
        (v.rules types).resolve (p ++ n) payload = (v.rules types).resolve n payload) ↔
      (n ∈ v.typedTags → n ∉ v.variableTags →
          ∀ q ∈ v.vendorPrefixes, ∀ m ∈ v.variableTags, q ++ m ≠ p ++ n) ∧
        (n ∉ v.typedTags → n ∉ v.variableTags → v.withVariable? (p ++ n) = v.withVariable? n) ∧
        (n ∉ methodNames → p ++ n ∉ methodNames) := by
  have hmethods : (p ++ n ∈ methodNames ↔ n ∈ methodNames) ↔
      (n ∉ methodNames → p ++ n ∉ methodNames) :=
    ⟨fun h => mt h.1, fun h => ⟨not_imp_not.1 h, hmethod⟩⟩
  rw [resolve_eq_iff, hmethods, ← and_assoc]
  refine and_congr_left fun _ => ?_
  by_cases hvar : n ∈ v.variableTags
  · simp [withVariable?_append_of_variable hp hvar, hvar]
  · by_cases htyped : n ∈ v.typedTags
    · simp [withVariable?_append_iff_of_typed hv hp htyped hvar, htyped, hvar]
    · simp [htyped, hvar]

end

/-- Two vendors of which one's prefix starts the other's, and a tag that is spelled in two ways. -/
theorem resolve_vendor_append_iff_return :
    let v : Vocabulary := {
      variableTags := ["param", "assert-param"].map String.toList
      typedTags := ["return"].map String.toList
      vendorPrefixes := ["acme-", "acme-assert-"].map String.toList }
    let p := "acme-assert-".toList
    let n := "return".toList
    ((∀ q ∈ v.vendorPrefixes, ∀ m ∈ v.variableTags ++ v.typedTags, ¬ q <+: m) ∧
      p ∈ v.vendorPrefixes ∧ (n ∈ methodNames → p ++ n ∈ methodNames)) ∧
    ((∀ types payload,
        (v.rules types).resolve (p ++ n) payload = (v.rules types).resolve n payload) ↔
      (n ∈ v.typedTags → n ∉ v.variableTags →
          ∀ q ∈ v.vendorPrefixes, ∀ m ∈ v.variableTags, q ++ m ≠ p ++ n) ∧
        (n ∉ v.typedTags → n ∉ v.variableTags → v.withVariable? (p ++ n) = v.withVariable? n) ∧
        (n ∉ methodNames → p ++ n ∉ methodNames)) ∧
    ∀ types payload,
      (v.rules types).resolve (p ++ n) payload = (v.rules types).resolve n payload := by
  intro v p n
  have hv : ∀ q ∈ v.vendorPrefixes, ∀ m ∈ v.variableTags ++ v.typedTags, ¬ q <+: m := by
    decide +kernel
  have hp : p ∈ v.vendorPrefixes := by decide +kernel
  have hmethod : n ∈ methodNames → p ++ n ∈ methodNames := by decide +kernel
  have h := resolve_vendor_append_iff hv hp hmethod
  exact ⟨⟨hv, hp, hmethod⟩, h, h.2 (by decide +kernel)⟩

/-- Behind `acme-assert-` the tag `type` is the same as `assert-type` behind `acme-`, which has a
variable; and `method` is known behind two vendors only, whatever the vocabulary says. -/
theorem not_resolve_vendor_append :
    let v : Vocabulary := {
      variableTags := ["assert-type"].map String.toList
      typedTags := ["type"].map String.toList
      vendorPrefixes := ["acme-", "acme-assert-"].map String.toList }
    let w : Vocabulary := {
      variableTags := ["param"].map String.toList
      typedTags := ["return"].map String.toList
      vendorPrefixes := ["acme-"].map String.toList }
    ((∀ q ∈ v.vendorPrefixes, ∀ m ∈ v.variableTags ++ v.typedTags, ¬ q <+: m) ∧
      "acme-assert-".toList ∈ v.vendorPrefixes ∧ "type".toList ∈ v.typedTags ∧
      (v.rules .standard).resolve ("acme-assert-".toList ++ "type".toList) "int $v".toList ≠
        (v.rules .standard).resolve "type".toList "int $v".toList) ∧
    (∀ q ∈ w.vendorPrefixes, ∀ m ∈ w.variableTags ++ w.typedTags, ¬ q <+: m) ∧
      "acme-".toList ∈ w.vendorPrefixes ∧
      (w.rules .standard).resolve ("acme-".toList ++ "method".toList) "f()".toList ≠
        (w.rules .standard).resolve "method".toList "f()".toList := by
  decide +kernel

end Vocabulary

end DocComment
