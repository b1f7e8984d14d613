import Mathlib.Tactic.Common
import DocComment.Attribute

/-!
# Which attributes a note changes

Each note about a node sets one attribute of one node. The lemmas say what the readers of the table
answer after it: about the node of the note and about any other.
-/

namespace DocComment.Attribute.Table

variable (a : Table) (id id' : NodeId) (s : Span) (n : Nat)

/-! ### Spans -/

@[simp] lemma span?_setSpan_self : (a.setSpan id s).span? id = some s := by
  simp [span?, setSpan]

lemma span?_setSpan_of_ne {id id' : NodeId} (h : id' ≠ id) :
    (a.setSpan id s).span? id' = a.span? id' := by
  simp [span?, setSpan, get?_set_of_ne, h]

@[simp] lemma span?_markSynthesized : (a.markSynthesized id).span? id' = a.span? id' := by
  simp [span?, markSynthesized, get?_set_of_ne]

@[simp] lemma span?_markChanged : (a.markChanged id).span? id' = a.span? id' := by
  simp [span?, markChanged, get?_set_of_ne]

@[simp] lemma span?_setLastTokenPosition :
    (a.setLastTokenPosition n).span? id' = a.span? id' := by
  simp [span?, setLastTokenPosition, get?_set_of_ne]

/-! ### Marks -/

@[simp] lemma isSynthesized_setSpan :
    (a.setSpan id s).isSynthesized id' = a.isSynthesized id' := by
  simp [isSynthesized, setSpan, get?_set_of_ne]

@[simp] lemma isSynthesized_markSynthesized :
    (a.markSynthesized id).isSynthesized id' = (id' = id || a.isSynthesized id') := by
  by_cases h : id' = id
  · simp [isSynthesized, markSynthesized, h]
  · simp [isSynthesized, markSynthesized, get?_set_of_ne, h]

@[simp] lemma isSynthesized_markChanged :
    (a.markChanged id).isSynthesized id' = a.isSynthesized id' := by
  simp [isSynthesized, markChanged, get?_set_of_ne]

@[simp] lemma isSynthesized_setLastTokenPosition :
    (a.setLastTokenPosition n).isSynthesized id' = a.isSynthesized id' := by
  simp [isSynthesized, setLastTokenPosition, get?_set_of_ne]

@[simp] lemma isChanged_setSpan : (a.setSpan id s).isChanged id' = a.isChanged id' := by
  simp [isChanged, setSpan, get?_set_of_ne]

@[simp] lemma isChanged_markChanged :
    (a.markChanged id).isChanged id' = (id' = id || a.isChanged id') := by
  by_cases h : id' = id
  · simp [isChanged, markChanged, h]
  · simp [isChanged, markChanged, get?_set_of_ne, h]

@[simp] lemma isChanged_setLastTokenPosition :
    (a.setLastTokenPosition n).isChanged id' = a.isChanged id' := by
  simp [isChanged, setLastTokenPosition, get?_set_of_ne]

/-! ### The end of the last node -/

@[simp] lemma lastTokenPosition?_setSpan :
    (a.setSpan id s).lastTokenPosition? = a.lastTokenPosition? := by
  simp [lastTokenPosition?, setSpan, get?_set_of_ne]

@[simp] lemma lastTokenPosition?_markSynthesized :
    (a.markSynthesized id).lastTokenPosition? = a.lastTokenPosition? := by
  simp [lastTokenPosition?, markSynthesized, get?_set_of_ne]

@[simp] lemma lastTokenPosition?_markChanged :
    (a.markChanged id).lastTokenPosition? = a.lastTokenPosition? := by
  simp [lastTokenPosition?, markChanged, get?_set_of_ne]

@[simp] lemma lastTokenPosition?_setLastTokenPosition :
    (a.setLastTokenPosition n).lastTokenPosition? = some n := by
  simp [lastTokenPosition?, setLastTokenPosition]

/-! ### Several notes -/

@[simp] lemma span?_foldl_markSynthesized (ids : List NodeId) :
    (ids.foldl markSynthesized a).span? id' = a.span? id' := by
  induction ids generalizing a with
  | nil => rfl
  | cons id ids ih => simp [ih]

@[simp] lemma isSynthesized_foldl_markSynthesized (ids : List NodeId) :
    (ids.foldl markSynthesized a).isSynthesized id' = (id' ∈ ids || a.isSynthesized id') := by
  induction ids generalizing a with
  | nil => simp
  | cons id ids ih => simp [ih, Bool.or_assoc, Bool.or_left_comm]

@[simp] lemma lastTokenPosition?_foldl_markSynthesized (ids : List NodeId) :
    (ids.foldl markSynthesized a).lastTokenPosition? = a.lastTokenPosition? := by
  induction ids generalizing a with
  | nil => rfl
  | cons id ids ih => simp [ih]

/-- Notes about the spans of some nodes leave all other nodes' attributes as they are. -/
lemma foldl_setSpan (ps : List (NodeId × Span)) :
    (∀ id', id' ∉ ps.map (·.1) →
      (ps.foldl (fun a (id, s) => a.setSpan id s) a).span? id' = a.span? id') ∧
    (∀ id', (ps.foldl (fun a (id, s) => a.setSpan id s) a).isSynthesized id' =
      a.isSynthesized id') ∧
    (∀ id', (ps.foldl (fun a (id, s) => a.setSpan id s) a).isChanged id' = a.isChanged id') := by
  induction ps generalizing a with
  | nil => simp
  | cons p ps ih =>
    obtain ⟨hs, hm, hc⟩ := ih (a.setSpan p.1 p.2)
    refine ⟨fun id' h => ?_, fun id' => ?_, fun id' => ?_⟩
    · simp only [List.map_cons, List.mem_cons, not_or] at h
      simpa [span?_setSpan_of_ne _ _ h.1] using hs id' h.2
    · simpa using hm id'
    · simpa using hc id'

/-! ### All attributes of a node or the comment -/

lemma get?_setSpan_of_ne {id id' : NodeId} (h : id' ≠ id) (k : Key) :
    (a.setSpan id s).get? (.node id') k = a.get? (.node id') k :=
  get?_set_of_ne a _ (by simp [h])

@[simp] lemma get?_setLastTokenPosition (k : Key) :
    (a.setLastTokenPosition n).get? (.node id) k = a.get? (.node id) k :=
  get?_set_of_ne a _ (by simp)

lemma get?_markChanged_of_ne {id id' : NodeId} (h : id' ≠ id) (k : Key) :
    (a.markChanged id).get? (.node id') k = a.get? (.node id') k :=
  get?_set_of_ne a _ (by simp [h])

lemma get?_foldl_markSynthesized {ids : List NodeId} {id : NodeId} (h : id ∉ ids) (k : Key) :
    (ids.foldl markSynthesized a).get? (.node id) k = a.get? (.node id) k := by
  induction ids generalizing a with
  | nil => rfl
  | cons id' ids ih =>
    rw [List.mem_cons, not_or] at h
    rw [List.foldl_cons, ih _ h.2]
    exact get?_set_of_ne a _ (by simp [h.1])

lemma get?_root_foldl_markSynthesized (ids : List NodeId) (k : Key) :
    (ids.foldl markSynthesized a).get? .root k = a.get? .root k := by
  induction ids generalizing a with
  | nil => rfl
  | cons id ids ih =>
    rw [List.foldl_cons, ih]
    exact get?_set_of_ne a _ (by simp)

lemma get?_foldl_setSpan {ps : List (NodeId × Span)} {id : NodeId} (h : id ∉ ps.map (·.1))
    (k : Key) :
    (ps.foldl (fun a (id, s) => a.setSpan id s) a).get? (.node id) k = a.get? (.node id) k := by
  induction ps generalizing a with
  | nil => rfl
  | cons p ps ih =>
    rw [List.map_cons, List.mem_cons, not_or] at h
    rw [List.foldl_cons, ih _ h.2, get?_setSpan_of_ne _ _ h.1]

/-- Nodes of which each is given a span have these spans. -/
lemma map_span?_foldl_setSpan {ids : List NodeId} {spans : List Span} (hids : ids.Nodup)
    (hlen : ids.length = spans.length) :
    ids.map ((ids.zip spans).foldl (fun a (id, s) => a.setSpan id s) a).span? =
      spans.map some := by
  induction ids generalizing a spans with
  | nil =>
    rw [List.length_nil, eq_comm, List.length_eq_zero_iff] at hlen
    rw [hlen]
    rfl
  | cons id ids ih =>
    obtain ⟨s, spans, rfl⟩ := List.exists_cons_of_length_eq_add_one hlen.symm
    obtain ⟨hid, hids⟩ := List.nodup_cons.1 hids
    have hzip : id ∉ (ids.zip spans).map (·.1) := fun hmem => by
      obtain ⟨p, hp, rfl⟩ := List.mem_map.1 hmem
      exact hid (List.of_mem_zip hp).1
    rw [List.zip_cons_cons, List.foldl_cons, List.map_cons, List.map_cons,
      ih _ hids (Nat.succ.inj hlen), (foldl_setSpan _ _).1 id hzip, span?_setSpan_self]

/-- A node has no attributes if no key is set. -/
lemma all_eq_nil_iff {t : Target} : a.all t = [] ↔ ∀ k, a.get? t k = none := by
  have hown : a.all t = [] ↔ ∀ e ∈ a.entries, e.1.1 ≠ t := by
    rw [all, ← List.length_eq_zero_iff, List.length_mergeSort, List.length_eq_zero_iff,
      List.filterMap_eq_nil_iff]
    simp
  simp only [hown, get?, List.lookup_eq_none_iff]
  constructor
  · intro h k e he
    exact bne_iff_ne.2 fun heq => h e he (by rw [← heq])
  · rintro h e he rfl
    simpa using h e.1.2 e he

end DocComment.Attribute.Table
