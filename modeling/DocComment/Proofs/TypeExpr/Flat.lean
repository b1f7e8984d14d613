import DocComment.Proofs.Text.Slice
import DocComment.Proofs.TypeExpr.Unread
import DocComment.Proofs.TypeExpr.Written

/-!
# Types that are written back

The text of a type does not say which members of a union were joined first, so a type that was read
is read back from its text at best with its nested unions and intersections taken apart (`flat`). It
is if and only if its text says everything else (`exists_read?_text_iff`): there are no rows of
nullable types, no `$` behind `&`, and no more `[]` in a row than may be read. Text between
parentheses may be read to each of these, and the type is written without the parentheses.
-/

namespace DocComment.TypeExpr

open Text

/-! ### Nested members -/

mutual

/-- The type with unions in unions and intersections in intersections taken apart. -/
def flat : TypeExpr → TypeExpr
  | .name n => .name n
  | .nullable t => .nullable t.flat
  | .array t => .array t.flat
  | .union ts => .union ((flats ts).flatMap unionMembers)
  | .intersection ts => .intersection ((flats ts).flatMap intersectionMembers)
  | .generic base ts => .generic base (flats ts)

/-- Types with their unions and intersections taken apart. -/
def flats : List TypeExpr → List TypeExpr
  | [] => []
  | t :: ts => t.flat :: flats ts

end

lemma flats_eq_map (ts : List TypeExpr) : flats ts = ts.map flat := by
  induction ts with
  | nil => rfl
  | cons t ts ih => rw [flats, ih, List.map_cons]

/-- Members of which none is taken apart. -/
lemma flatMap_members {ts : List TypeExpr} {members : TypeExpr → List TypeExpr}
    (h : ∀ t ∈ ts, members t = [t]) : ts.flatMap members = ts := by
  rw [List.flatMap_congr h, List.flatMap_singleton']

lemma unionMembers_of_ne_union {t : TypeExpr} (hnot : ∀ us, t ≠ .union us) :
    t.unionMembers = [t] := by
  cases t with
  | union us => exact absurd rfl (hnot us)
  | _ => rfl

lemma intersectionMembers_of_ne_intersection {t : TypeExpr} (hnot : ∀ us, t ≠ .intersection us) :
    t.intersectionMembers = [t] := by
  cases t with
  | intersection us => exact absurd rfl (hnot us)
  | _ => rfl

/-- In a type in normal form there is nothing to take apart. -/
lemma Normal.flat_eq {t : TypeExpr} (h : Normal t) : t.flat = t := by
  have hmap : ∀ {ts : List TypeExpr}, (∀ t ∈ ts, t.flat = t) → flats ts = ts := by
    intro ts h
    rw [flats_eq_map, List.map_congr_left h, List.map_id']
  induction h with
  | name => rfl
  | nullable _ ih => rw [flat, ih]
  | array _ _ ih => rw [flat, ih]
  | union _ _ hnot ih =>
    rw [flat, hmap ih, flatMap_members fun t ht => unionMembers_of_ne_union (hnot t ht)]
  | intersection _ _ hnot ih =>
    rw [flat, hmap ih,
      flatMap_members fun t ht => intersectionMembers_of_ne_intersection (hnot t ht)]
  | generic _ _ _ _ ih => rw [flat, hmap ih]

/-! ### Rows of nullable types -/

/-- Whether a type is written with `?` in front. -/
def isOptional : TypeExpr → Bool
  | .nullable _ => true
  | _ => false

mutual

/-- Whether there are rows of a nullable type in a type. They are written as a nullable row is. -/
def hasNullableRows : TypeExpr → Bool
  | .name _ => false
  | .nullable t => t.hasNullableRows
  | .array t => t.isOptional || t.hasNullableRows
  | .union ts | .intersection ts | .generic _ ts => anyNullableRows ts

/-- Whether there are rows of a nullable type in one of the types. -/
def anyNullableRows : List TypeExpr → Bool
  | [] => false
  | t :: ts => t.hasNullableRows || anyNullableRows ts

end

lemma anyNullableRows_eq_any (ts : List TypeExpr) :
    anyNullableRows ts = ts.any hasNullableRows := by
  induction ts with
  | nil => rfl
  | cons t ts ih => rw [anyNullableRows, ih, List.any_cons]

lemma any_unionMembers (t : TypeExpr) : t.unionMembers.any hasNullableRows = t.hasNullableRows := by
  cases t with
  | union ts => exact (anyNullableRows_eq_any ts).symm
  | _ => exact Bool.or_false _

lemma any_intersectionMembers (t : TypeExpr) :
    t.intersectionMembers.any hasNullableRows = t.hasNullableRows := by
  cases t with
  | intersection ts => exact (anyNullableRows_eq_any ts).symm
  | _ => exact Bool.or_false _

lemma isOptional_flat (t : TypeExpr) : t.flat.isOptional = t.isOptional := by
  cases t <;> rfl

lemma rows_of_not_isOptional {t : TypeExpr} (h : t.isOptional = false) : t.rows = .array t := by
  cases t with
  | nullable => cases h
  | _ => rfl

/-- Rows of nullable types stay where they are. -/
lemma WellNamed.hasNullableRows_flat {t : TypeExpr} (h : WellNamed t) :
    t.flat.hasNullableRows = t.hasNullableRows := by
  have hany : ∀ {ts : List TypeExpr}, (∀ t ∈ ts, t.flat.hasNullableRows = t.hasNullableRows) →
      (flats ts).any hasNullableRows = ts.any hasNullableRows := by
    intro ts h
    rw [flats_eq_map, List.any_map, Bool.eq_iff_iff, List.any_eq_true, List.any_eq_true]
    exact exists_congr fun t => and_congr_right fun ht => by rw [Function.comp_apply, h t ht]
  induction h with
  | name => rfl
  | nullable _ ih => rw [flat, hasNullableRows, ih, hasNullableRows]
  | array _ ih => rw [flat, hasNullableRows, isOptional_flat, ih, hasNullableRows]
  | union _ _ ih =>
    rw [flat, hasNullableRows, hasNullableRows, anyNullableRows_eq_any, anyNullableRows_eq_any,
      List.any_flatMap, ← hany ih]
    simp only [any_unionMembers]
  | intersection _ _ ih =>
    rw [flat, hasNullableRows, hasNullableRows, anyNullableRows_eq_any, anyNullableRows_eq_any,
      List.any_flatMap, ← hany ih]
    simp only [any_intersectionMembers]
  | generic _ _ _ _ ih =>
    rw [flat, hasNullableRows, hasNullableRows, anyNullableRows_eq_any, anyNullableRows_eq_any,
      hany ih]

lemma Normal.hasNullableRows_eq_false {t : TypeExpr} (h : Normal t) :
    t.hasNullableRows = false := by
  have hany : ∀ {ts : List TypeExpr}, (∀ t ∈ ts, t.hasNullableRows = false) →
      anyNullableRows ts = false := by
    intro ts h
    rw [anyNullableRows_eq_any, List.any_eq_false]
    simpa using h
  induction h with
  | name => rfl
  | nullable _ ih => exact ih
  | @array t _ hnot ih =>
    rw [hasNullableRows, ih]
    cases t with
    | nullable u => exact absurd rfl (hnot u)
    | _ => rfl
  | union _ _ _ ih => exact hany ih
  | intersection _ _ _ ih => exact hany ih
  | generic _ _ _ _ ih => exact hany ih

/-- Without rows of nullable types the normal form only takes members apart. -/
lemma WellNamed.normal_eq_flat {t : TypeExpr} (h : WellNamed t)
    (hrows : t.hasNullableRows = false) :
    t.normal = t.flat := by
  have hmap : ∀ {ts : List TypeExpr}, anyNullableRows ts = false →
      (∀ t ∈ ts, t.hasNullableRows = false → t.normal = t.flat) → normals ts = flats ts := by
    intro ts hrows h
    rw [anyNullableRows_eq_any, List.any_eq_false] at hrows
    rw [normals_eq_map, flats_eq_map]
    exact List.map_congr_left fun t ht => h t ht (by simpa using hrows t ht)
  induction h with
  | name => rfl
  | nullable _ ih => rw [TypeExpr.normal, flat, ih hrows]
  | array _ ih =>
    rw [hasNullableRows, Bool.or_eq_false_iff] at hrows
    obtain ⟨hnot, hrows⟩ := hrows
    rw [TypeExpr.normal, flat, ih hrows, rows_of_not_isOptional]
    rwa [isOptional_flat]
  | union _ _ ih => rw [TypeExpr.normal, flat, hmap hrows ih]
  | intersection _ _ ih => rw [TypeExpr.normal, flat, hmap hrows ih]
  | generic _ _ _ _ ih => rw [TypeExpr.normal, flat, hmap hrows ih]

/-! ### Reading back -/

/-- A type in normal form with names of the grammar is readable if no `$` stands behind `&`. -/
lemma Normal.readable {t : TypeExpr} (h : Normal t) (hnames : ∀ n ∈ t.names, IsName n)
    (hreference : ¬ ['&', '$'] <:+: t.text) : Readable t := by
  have hmember : ∀ {ts : List TypeExpr} {t : TypeExpr}, (∀ n ∈ namesOf ts, IsName n) → t ∈ ts →
      ∀ n ∈ t.names, IsName n := by
    intro ts t hnames ht n hn
    rw [namesOf_eq_flatMap] at hnames
    exact hnames n (List.mem_flatMap.2 ⟨t, ht, hn⟩)
  induction h with
  | name => exact .name (hnames _ List.mem_cons_self)
  | nullable _ ih =>
    exact .nullable (ih hnames (not_infix_of_mem_parts hreference List.mem_cons_self))
  | array _ hnot ih =>
    exact .array (ih hnames (not_infix_of_mem_parts hreference List.mem_cons_self)) hnot
  | union hlen _ hnot ih =>
    apply Readable.union hlen _ hnot
    intro t ht
    exact ih t ht (hmember hnames ht) (not_infix_of_mem_parts hreference ht)
  | @intersection ts hlen _ hnot ih =>
    apply Readable.intersection hlen _ hnot
    · intro t ht hhead
      obtain ⟨m, ms, rfl⟩ := List.exists_cons_of_ne_nil (ne_nil_of_two_le hlen)
      obtain ⟨w, hw⟩ := List.head?_eq_some_iff.1 hhead
      apply hreference
      have hstart : ['&', '$'] <:+: ['&'] ++ t.memberText := by
        rw [hw]
        exact (List.prefix_append ['&', '$'] w).isInfix
      rw [text, memberTexts_eq, List.map_cons]
      exact hstart.trans (append_infix_intercalate (List.mem_map_of_mem ht))
    · intro t ht
      exact ih t ht (hmember hnames ht) (not_infix_of_mem_parts hreference ht)
  | generic _ _ hne _ ih =>
    obtain ⟨hn, hnames⟩ := List.forall_mem_cons.1 hnames
    apply Readable.generic hn hne
    intro t ht
    exact ih t ht (hmember hnames ht) (not_infix_of_mem_parts hreference ht)

/-- A type that was read is read back from its text, with members that were joined apart joined at
once, if and only if there are no rows of nullable types in it, and in its text no `$` behind `&`
and no more `[]` in a row than may be read. -/
theorem exists_read?_text_iff {raw : Text} {t : TypeExpr} {n : Nat} (h : read? raw = some (t, n)) :
    (∃ u, read? t.text = some (u, byteSize t.text) ∧ u.flat = t.flat) ↔
      t.hasNullableRows = false ∧ ¬ ['&', '$'] <:+: t.text ∧
        ¬ brackets (maxNesting + 1) <:+: t.text := by
  have hnamed := wellNamed_of_read? h
  obtain ⟨w, -, -, -, hw, -⟩ := sound_read? h
  constructor
  · -- All of the text is derived for `u`, so `u` is the normal form of `t`.
    rintro ⟨u, hu, hflat⟩
    obtain ⟨v, rest, hv, hsize, hderives, -⟩ := sound_read? hu
    obtain rfl : rest = [] := by
      rw [hv, byteSize_append] at hsize
      exact byteSize_eq_zero.1 (by omega)
    rw [List.append_nil] at hv
    subst hv
    refine ⟨?_, Unread.reference.not_infix_of_derives hderives,
      Unread.rows.not_infix_of_derives hderives⟩
    rw [← hnamed.text_normal] at hderives
    rw [hnamed.normal.eq_of_derives hderives, hnamed.normal.flat_eq] at hflat
    rw [← hnamed.hasNullableRows_flat, ← hflat]
    exact hnamed.normal.hasNullableRows_eq_false
  · -- The normal form is readable, with names and levels as they were read in `t`.
    rintro ⟨hrows, hreference, hbrackets⟩
    have hfits := fits_of_derives hw
    rw [← hnamed.text_normal] at hreference hbrackets
    have hreadable : Readable t.normal := by
      apply hnamed.normal.readable _ hreference
      rw [hnamed.names_normal]
      exact hfits.isName
    have hlevels : t.normal.levels ≤ maxNesting := by
      rw [hnamed.levels_normal]
      exact hfits.count_le
    refine ⟨t.normal, ?_, ?_⟩
    · have hread : read? (t.normal.text ++ []) = some (t.normal, byteSize t.normal.text) :=
        hreadable.read?_text hlevels hbrackets (by simp)
      rwa [List.append_nil, hnamed.text_normal] at hread
    · rw [hnamed.normal.flat_eq, hnamed.normal_eq_flat hrows]

/-- Parentheses around the first members of a union are not written back. -/
theorem exists_read?_text_iff_union :
    let t : TypeExpr := .union [.union [.name ['A'], .name ['B']], .name ['C']]
    read? "(A|B)|C".toList = some (t, 7) ∧ t.text = "A|B|C".toList ∧
      ∃ u, read? t.text = some (u, byteSize t.text) ∧ u.flat = t.flat := by
  intro t
  have hread : read? "(A|B)|C".toList = some (t, 7) := by decide +kernel
  have hreference : ¬ ['&', '$'] <:+: t.text := by decide
  have hrows : ¬ brackets (maxNesting + 1) <:+: t.text := not_brackets_infix (by decide)
  refine ⟨hread, rfl, ?_⟩
  exact (exists_read?_text_iff hread).2 ⟨rfl, hreference, hrows⟩

/-- Rows of a nullable type are read back as a nullable type. -/
theorem not_exists_read?_text_nullable_rows :
    ¬ ∀ raw t n, read? raw = some (t, n) →
      ∃ u, read? t.text = some (u, byteSize t.text) ∧ u.flat = t.flat := by
  intro h
  have hread : read? "(?A)[]".toList = some (.array (.nullable (.name ['A'])), 6) := by
    decide +kernel
  obtain ⟨u, hu, hflat⟩ := h _ _ _ hread
  have hback : read? "?A[]".toList = some (.nullable (.array (.name ['A'])), 4) := by
    decide +kernel
  obtain ⟨rfl, -⟩ := Prod.mk.inj (Option.some.inj (hback.symm.trans hu))
  cases hflat

end DocComment.TypeExpr
