import DocComment.Proofs.Text.Join
import DocComment.Proofs.TypeExpr.WellNamed

/-!
# Types in normal form

Different types may be written alike: the text of a union does not say which of its members were
joined first, and `?A[]` is a row of nullable types as well as a nullable row. Of the types that are
written alike one is normal (`Normal`): unions hold no unions, intersections hold no intersections,
and the rows stand below `?`. Every type that is read has a normal form (`WellNamed.normal`), which
is written alike (`WellNamed.text_normal`).
-/

namespace DocComment.TypeExpr

open Text

/-! ### Members -/

/-- The types that a union joins. Any other type is joined to none. -/
def unionMembers : TypeExpr → List TypeExpr
  | .union ts => ts
  | t => [t]

/-- The types that an intersection joins. Any other type is joined to none. -/
def intersectionMembers : TypeExpr → List TypeExpr
  | .intersection ts => ts
  | t => [t]

def isUnion : TypeExpr → Bool
  | .union _ => true
  | _ => false

/-- The text of a type that `?` or `[]` holds. -/
def heldText (t : TypeExpr) : Text := parenthesizedIf t.isCompound t.text

/-- The text of a type that `&` joins to others. -/
def memberText (t : TypeExpr) : Text := parenthesizedIf t.isUnion t.text

lemma memberTexts_eq (ts : List TypeExpr) : memberTexts ts = ts.map memberText := by
  rw [memberTexts_eq_map]
  exact List.map_congr_left fun t _ => by cases t <;> rfl

/-! ### The normal form -/

/-- Rows of a type. Behind `?` the brackets belong to the type after it. -/
def rows : TypeExpr → TypeExpr
  | .nullable t => .nullable t.rows
  | t => .array t

mutual

/-- The normal form of a type. -/
def normal : TypeExpr → TypeExpr
  | .name n => .name n
  | .nullable t => .nullable t.normal
  | .array t => t.normal.rows
  | .union ts => .union ((normals ts).flatMap unionMembers)
  | .intersection ts => .intersection ((normals ts).flatMap intersectionMembers)
  | .generic base ts => .generic base (normals ts)

/-- The normal forms of types. -/
def normals : List TypeExpr → List TypeExpr
  | [] => []
  | t :: ts => t.normal :: normals ts

end

lemma normals_eq_map (ts : List TypeExpr) : normals ts = ts.map normal := by
  induction ts with
  | nil => rfl
  | cons t ts ih => simp [normals, ih]

/-- Types of which no two are written alike. -/
inductive Normal : TypeExpr → Prop where
  | name {n : Text} (hne : n ≠ []) (hn : ∀ c ∈ n, isNameChar c) : Normal (.name n)
  | nullable {t : TypeExpr} (ht : Normal t) : Normal (.nullable t)
  | array {t : TypeExpr} (ht : Normal t) (hnot : ∀ u, t ≠ .nullable u) : Normal (.array t)
  | union {ts : List TypeExpr} (hlen : 2 ≤ ts.length) (hts : ∀ t ∈ ts, Normal t)
    (hnot : ∀ t ∈ ts, ∀ us, t ≠ .union us) : Normal (.union ts)
  | intersection {ts : List TypeExpr} (hlen : 2 ≤ ts.length) (hts : ∀ t ∈ ts, Normal t)
    (hnot : ∀ t ∈ ts, ∀ us, t ≠ .intersection us) : Normal (.intersection ts)
  | generic {n : Text} {ts : List TypeExpr} (hne : n ≠ []) (hn : ∀ c ∈ n, isNameChar c)
    (hne' : ts ≠ []) (hts : ∀ t ∈ ts, Normal t) : Normal (.generic n ts)

lemma Normal.wellNamed {t : TypeExpr} (h : Normal t) : WellNamed t := by
  induction h with
  | name hne hn => exact .name hne hn
  | nullable _ ih => exact .nullable ih
  | array _ _ ih => exact .array ih
  | union hlen _ _ ih => exact .union hlen ih
  | intersection hlen _ _ ih => exact .intersection hlen ih
  | generic hne hn hne' _ ih => exact .generic hne hn hne' ih

/-! ### The form of a normal form -/

lemma isCompound_rows (t : TypeExpr) : t.rows.isCompound = false := by
  cases t <;> rfl

/-- The normal form is a union or an intersection where the type is. -/
lemma isCompound_normal (t : TypeExpr) : t.normal.isCompound = t.isCompound := by
  cases t with
  | array t => exact isCompound_rows t.normal
  | _ => rfl

lemma isUnion_normal (t : TypeExpr) : t.normal.isUnion = t.isUnion := by
  cases t with
  | array t =>
    show t.normal.rows.isUnion = false
    cases t.normal <;> rfl
  | _ => rfl

lemma Normal.rows {t : TypeExpr} (h : Normal t) : Normal t.rows := by
  induction h with
  | nullable _ ih => exact ih.nullable
  | name hne hn => exact .array (.name hne hn) nofun
  | array ht hnot => exact .array (.array ht hnot) nofun
  | union hlen hts hnot => exact .array (.union hlen hts hnot) nofun
  | intersection hlen hts hnot => exact .array (.intersection hlen hts hnot) nofun
  | generic hne hn hne' hts => exact .array (.generic hne hn hne' hts) nofun

lemma Normal.of_mem_unionMembers {t : TypeExpr} (h : Normal t) :
    ∀ m ∈ t.unionMembers, Normal m ∧ ∀ us, m ≠ .union us := by
  cases h with
  | union hlen hts hnot => exact fun m hm => ⟨hts m hm, hnot m hm⟩
  | name hne hn => exact List.forall_mem_singleton.2 ⟨.name hne hn, nofun⟩
  | nullable ht => exact List.forall_mem_singleton.2 ⟨.nullable ht, nofun⟩
  | array ht hnot => exact List.forall_mem_singleton.2 ⟨.array ht hnot, nofun⟩
  | intersection hlen hts hnot =>
    exact List.forall_mem_singleton.2 ⟨.intersection hlen hts hnot, nofun⟩
  | generic hne hn hne' hts => exact List.forall_mem_singleton.2 ⟨.generic hne hn hne' hts, nofun⟩

lemma Normal.of_mem_intersectionMembers {t : TypeExpr} (h : Normal t) :
    ∀ m ∈ t.intersectionMembers, Normal m ∧ ∀ us, m ≠ .intersection us := by
  cases h with
  | intersection hlen hts hnot => exact fun m hm => ⟨hts m hm, hnot m hm⟩
  | name hne hn => exact List.forall_mem_singleton.2 ⟨.name hne hn, nofun⟩
  | nullable ht => exact List.forall_mem_singleton.2 ⟨.nullable ht, nofun⟩
  | array ht hnot => exact List.forall_mem_singleton.2 ⟨.array ht hnot, nofun⟩
  | union hlen hts hnot => exact List.forall_mem_singleton.2 ⟨.union hlen hts hnot, nofun⟩
  | generic hne hn hne' hts => exact List.forall_mem_singleton.2 ⟨.generic hne hn hne' hts, nofun⟩

/-- A list with as many members, each of them taken apart. -/
lemma two_le_length_flatMap {ts : List TypeExpr} {members : TypeExpr → List TypeExpr}
    (hlen : 2 ≤ ts.length) (hne : ∀ t ∈ ts, members t ≠ []) :
    2 ≤ (ts.flatMap members).length := by
  refine hlen.trans ?_
  clear hlen
  induction ts with
  | nil => exact Nat.zero_le _
  | cons t ts ih =>
    obtain ⟨ht, hts⟩ := List.forall_mem_cons.1 hne
    have hpos := List.length_pos_iff.2 ht
    have hrest := ih hts
    rw [List.flatMap_cons, List.length_append, List.length_cons]
    omega

lemma Normal.unionMembers_ne_nil {t : TypeExpr} (h : Normal t) : t.unionMembers ≠ [] := by
  cases h with
  | union hlen => exact ne_nil_of_two_le hlen
  | _ => exact List.cons_ne_nil _ _

lemma Normal.intersectionMembers_ne_nil {t : TypeExpr} (h : Normal t) :
    t.intersectionMembers ≠ [] := by
  cases h with
  | intersection hlen => exact ne_nil_of_two_le hlen
  | _ => exact List.cons_ne_nil _ _

/-- Types that are read have a normal form. -/
theorem WellNamed.normal {t : TypeExpr} (h : WellNamed t) : Normal t.normal := by
  induction h with
  | name hne hn => exact .name hne hn
  | nullable _ ih => exact ih.nullable
  | array _ ih => exact ih.rows
  | @union ts hlen _ ih =>
    have hnormal : ∀ u ∈ normals ts, Normal u := by
      rw [normals_eq_map, List.forall_mem_map]
      exact ih
    refine .union (two_le_length_flatMap ?_ fun u hu => (hnormal u hu).unionMembers_ne_nil)
      (fun m hm => ?_) fun m hm => ?_
    · rwa [normals_eq_map, List.length_map]
    all_goals
      obtain ⟨u, hu, hmu⟩ := List.mem_flatMap.1 hm
      obtain ⟨hm, hnot⟩ := (hnormal u hu).of_mem_unionMembers m hmu
    · exact hm
    · exact hnot
  | @intersection ts hlen _ ih =>
    have hnormal : ∀ u ∈ normals ts, Normal u := by
      rw [normals_eq_map, List.forall_mem_map]
      exact ih
    refine .intersection
      (two_le_length_flatMap ?_ fun u hu => (hnormal u hu).intersectionMembers_ne_nil)
      (fun m hm => ?_) fun m hm => ?_
    · rwa [normals_eq_map, List.length_map]
    all_goals
      obtain ⟨u, hu, hmu⟩ := List.mem_flatMap.1 hm
      obtain ⟨hm, hnot⟩ := (hnormal u hu).of_mem_intersectionMembers m hmu
    · exact hm
    · exact hnot
  | @generic n ts hne hn hne' _ ih =>
    refine .generic hne hn ?_ ?_
    · rw [normals_eq_map]
      exact List.map_eq_nil_iff.not.2 hne'
    · rw [normals_eq_map, List.forall_mem_map]
      exact ih

/-! ### The text of a normal form -/

/-- A type is written as its members, joined by `|`. -/
lemma text_eq_intercalate (t : TypeExpr) :
    t.text = ['|'].intercalate (t.unionMembers.map text) := by
  cases t with
  | union ts =>
    rw [text, texts_eq_map]
    rfl
  | _ => exact List.intercalate_singleton.symm

/-- Between signs `&` a type is written as its members, joined by `&`. -/
lemma memberText_eq_intercalate (t : TypeExpr) :
    t.memberText = ['&'].intercalate (t.intersectionMembers.map memberText) := by
  cases t with
  | intersection ts =>
    show text (.intersection ts) = _
    rw [text, memberTexts_eq]
    rfl
  | _ => exact List.intercalate_singleton.symm

/-- Rows are written as the type that they hold and the brackets. -/
lemma text_rows (t : TypeExpr) :
    t.rows.text = parenthesizedIf t.isCompound t.text ++ ['[', ']'] := by
  induction t using rows.induct with
  | case1 t ih =>
    rw [rows, text, isCompound_rows, parenthesizedIf, ih]
    rfl
  | case2 t hnot =>
    rw [rows.eq_2 t hnot, text]

/-- Parts that are joined themselves may be joined all at once. -/
lemma intercalate_flatMap {sep : Text} {ts : List TypeExpr} {f : TypeExpr → Text}
    {members : TypeExpr → List TypeExpr} (hne : ∀ t ∈ ts, members t ≠ [])
    (hf : ∀ t, f t = sep.intercalate ((members t).map f)) :
    sep.intercalate ((ts.flatMap members).map f) = sep.intercalate (ts.map f) := by
  induction ts with
  | nil => rfl
  | cons t ts ih =>
    obtain ⟨ht, hts⟩ := List.forall_mem_cons.1 hne
    cases ts with
    | nil => simp [← hf]
    | cons u ts =>
      have hrest : ((u :: ts).flatMap members).map f ≠ [] := by
        simp [hts u List.mem_cons_self]
      rw [List.flatMap_cons, List.map_append,
        intercalate_append (List.map_eq_nil_iff.not.2 ht) hrest, ← hf, ih hts, List.map_cons]
      exact List.intercalate_cons_cons.symm

/-- The normal form is written alike. -/
theorem WellNamed.text_normal {t : TypeExpr} (h : WellNamed t) : t.normal.text = t.text := by
  induction h with
  | name => rfl
  | @nullable t _ ih => rw [TypeExpr.normal, text, text, isCompound_normal, ih]
  | @array t _ ih => rw [TypeExpr.normal, text_rows, text, isCompound_normal, ih]
  | @union ts hlen hts ih =>
    have hne : ∀ u ∈ normals ts, u.unionMembers ≠ [] := by
      rw [normals_eq_map, List.forall_mem_map]
      exact fun u hu => (hts u hu).normal.unionMembers_ne_nil
    rw [TypeExpr.normal, text, text, texts_eq_map, texts_eq_map,
      intercalate_flatMap hne text_eq_intercalate, normals_eq_map, List.map_map]
    exact congrArg _ (List.map_congr_left ih)
  | @intersection ts hlen hts ih =>
    have hne : ∀ u ∈ normals ts, u.intersectionMembers ≠ [] := by
      rw [normals_eq_map, List.forall_mem_map]
      exact fun u hu => (hts u hu).normal.intersectionMembers_ne_nil
    have hmember : ∀ u ∈ ts, u.normal.memberText = u.memberText := fun u hu =>
      congrArg₂ parenthesizedIf (isUnion_normal u) (ih u hu)
    rw [TypeExpr.normal, text, text, memberTexts_eq, memberTexts_eq,
      intercalate_flatMap hne memberText_eq_intercalate, normals_eq_map, List.map_map]
    exact congrArg _ (List.map_congr_left hmember)
  | @generic n ts _ _ _ _ ih =>
    have htexts : texts (normals ts) = texts ts := by
      rw [normals_eq_map, texts_eq_map, texts_eq_map, List.map_map]
      exact List.map_congr_left ih
    rw [TypeExpr.normal, text, text, htexts]

end DocComment.TypeExpr
