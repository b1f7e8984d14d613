import DocComment.Proofs.TypeExpr.Reread

/-!
# How deep types nest

A reader opens at most `maxNesting` of `?`, `(` and `<` at once. Here they are counted in the text
of a type (`levels`), and what the grammar derives needs no more of them than it had (`Fits`),
although it may have been derived from a text with more parentheses. The normal form of a type needs
as many as the type (`levels_normal`).
-/

namespace DocComment.TypeExpr

open Text

/-! ### Counting -/

mutual

/-- The number of `?`, `(` and `<` that are open at once in the text of a type. -/
def levels : TypeExpr → Nat
  | .name _ => 0
  | .nullable t => t.levels + t.isCompound.toNat + 1
  | .array t => t.levels + t.isCompound.toNat
  | .union ts => levelsOf ts
  | .intersection ts => memberLevels ts
  | .generic _ ts => levelsOf ts + 1

/-- The number of those that are open at once in the texts of types. -/
def levelsOf : List TypeExpr → Nat
  | [] => 0
  | t :: ts => max t.levels (levelsOf ts)

/-- The number of those that are open at once in the texts of the members of an intersection. -/
def memberLevels : List TypeExpr → Nat
  | [] => 0
  | t :: ts => max (t.levels + t.isUnion.toNat) (memberLevels ts)

end

/-- The number of levels in the text of a type that `?` or `[]` holds. -/
def heldLevels (t : TypeExpr) : Nat := t.levels + t.isCompound.toNat

/-- The number of levels in the text of a type that `&` joins to others. -/
def joinedLevels (t : TypeExpr) : Nat := t.levels + t.isUnion.toNat

/-- The largest of the numbers of types. -/
def most (f : TypeExpr → Nat) (ts : List TypeExpr) : Nat := ts.foldr (fun t n => max (f t) n) 0

lemma levelsOf_eq_most (ts : List TypeExpr) : levelsOf ts = most levels ts := by
  induction ts with
  | nil => rfl
  | cons t ts ih =>
    rw [levelsOf, ih]
    rfl

lemma memberLevels_eq_most (ts : List TypeExpr) : memberLevels ts = most joinedLevels ts := by
  induction ts with
  | nil => rfl
  | cons t ts ih =>
    rw [memberLevels, ih]
    rfl

section

variable {f : TypeExpr → Nat} {ts : List TypeExpr}

lemma most_cons (f : TypeExpr → Nat) (t : TypeExpr) (ts : List TypeExpr) :
    most f (t :: ts) = max (f t) (most f ts) := rfl

lemma most_le {k : Nat} : most f ts ≤ k ↔ ∀ t ∈ ts, f t ≤ k := by
  induction ts with
  | nil => simp [most]
  | cons t ts ih => rw [most_cons, Nat.max_le, ih, List.forall_mem_cons]

lemma most_append (ts us : List TypeExpr) : most f (ts ++ us) = max (most f ts) (most f us) := by
  induction ts with
  | nil => exact (Nat.zero_max _).symm
  | cons t ts ih => rw [List.cons_append, most_cons, most_cons, ih, Nat.max_assoc]

/-- Types may be taken apart. -/
lemma most_flatMap {members : TypeExpr → List TypeExpr} (h : ∀ t, most f (members t) = f t) :
    most f (ts.flatMap members) = most f ts := by
  induction ts with
  | nil => rfl
  | cons t ts ih => rw [List.flatMap_cons, most_append, h, ih, most_cons]

lemma most_map {g : TypeExpr → TypeExpr} (h : ∀ t ∈ ts, f (g t) = f t) :
    most f (ts.map g) = most f ts := by
  induction ts with
  | nil => rfl
  | cons t ts ih =>
    obtain ⟨ht, hts⟩ := List.forall_mem_cons.1 h
    rw [List.map_cons, most_cons, most_cons, ht, ih hts]

end

lemma levels_le_heldLevels (t : TypeExpr) : t.levels ≤ t.heldLevels := Nat.le_add_right _ _

/-- A union stands between parentheses, and other members need no more levels than if they were
held. -/
lemma joinedLevels_le_heldLevels (t : TypeExpr) : t.joinedLevels ≤ t.heldLevels := by
  cases t with
  | union | name | nullable | array | generic => exact le_rfl
  | intersection => exact Nat.le_succ _

lemma heldLevels_of_ne_intersection {t : TypeExpr} (hnot : ∀ us, t ≠ .intersection us) :
    t.heldLevels = t.joinedLevels := by
  cases t with
  | intersection us => exact absurd rfl (hnot us)
  | _ => rfl

lemma heldLevels_arrays (n : Nat) (t : TypeExpr) : (arrays n t).heldLevels = t.heldLevels := by
  induction n with
  | zero => rfl
  | succ n ih =>
    rw [arrays_succ, ← ih]
    rfl

/-! ### Names -/

lemma namesOf_eq_flatMap (ts : List TypeExpr) : namesOf ts = ts.flatMap names := by
  induction ts with
  | nil => rfl
  | cons t ts ih => rw [namesOf, ih, List.flatMap_cons]

lemma names_arrays (n : Nat) (t : TypeExpr) : (arrays n t).names = t.names := by
  induction n with
  | zero => rfl
  | succ n ih =>
    rw [arrays_succ, ← ih]
    rfl

/-! ### Normal forms -/

lemma levels_rows (t : TypeExpr) : t.rows.levels = t.heldLevels := by
  induction t using rows.induct with
  | case1 t ih =>
    rw [rows, levels, isCompound_rows, ih]
    rfl
  | case2 t hnot =>
    rw [rows.eq_2 t hnot]
    rfl

lemma most_unionMembers (t : TypeExpr) : most levels t.unionMembers = t.levels := by
  cases t with
  | union ts => exact (levelsOf_eq_most ts).symm
  | _ => exact Nat.max_zero _

lemma most_intersectionMembers (t : TypeExpr) :
    most joinedLevels t.intersectionMembers = t.joinedLevels := by
  cases t with
  | intersection ts => exact (memberLevels_eq_most ts).symm
  | _ => exact Nat.max_zero _

/-- The normal form of a type has as many levels. -/
lemma WellNamed.levels_normal {t : TypeExpr} (h : WellNamed t) : t.normal.levels = t.levels := by
  induction h with
  | name => rfl
  | nullable _ ih => rw [TypeExpr.normal, levels, levels, isCompound_normal, ih]
  | array _ ih => rw [TypeExpr.normal, levels_rows, heldLevels, isCompound_normal, ih, levels]
  | union _ _ ih =>
    rw [TypeExpr.normal, levels, levels, levelsOf_eq_most, levelsOf_eq_most,
      most_flatMap most_unionMembers, normals_eq_map, most_map ih]
  | intersection _ _ ih =>
    have hjoined : ∀ t ∈ _, (TypeExpr.normal t).joinedLevels = t.joinedLevels := fun t ht => by
      rw [joinedLevels, ih t ht, isUnion_normal, joinedLevels]
    rw [TypeExpr.normal, levels, levels, memberLevels_eq_most, memberLevels_eq_most,
      most_flatMap most_intersectionMembers, normals_eq_map, most_map hjoined]
  | generic _ _ _ _ ih =>
    rw [TypeExpr.normal, levels, levels, levelsOf_eq_most, levelsOf_eq_most, normals_eq_map,
      most_map ih]

lemma names_rows (t : TypeExpr) : t.rows.names = t.names := by
  induction t using rows.induct with
  | case1 t ih => rw [rows, names, ih, names]
  | case2 t hnot => rw [rows.eq_2 t hnot, names]

/-- The members of unions and intersections have their names. -/
lemma namesOf_flatMap {members : TypeExpr → List TypeExpr} (ts : List TypeExpr)
    (h : ∀ t, namesOf (members t) = t.names) : namesOf (ts.flatMap members) = namesOf ts := by
  rw [namesOf_eq_flatMap, List.flatMap_assoc, namesOf_eq_flatMap]
  congr 1
  funext t
  rw [← namesOf_eq_flatMap, h]

lemma namesOf_unionMembers (t : TypeExpr) : namesOf t.unionMembers = t.names := by
  cases t with
  | union ts => rfl
  | _ => exact List.append_nil _

lemma namesOf_intersectionMembers (t : TypeExpr) : namesOf t.intersectionMembers = t.names := by
  cases t with
  | intersection ts => rfl
  | _ => exact List.append_nil _

lemma namesOf_map {ts : List TypeExpr} {f : TypeExpr → TypeExpr}
    (h : ∀ t ∈ ts, (f t).names = t.names) : namesOf (ts.map f) = namesOf ts := by
  rw [namesOf_eq_flatMap, namesOf_eq_flatMap, List.flatMap_map]
  exact List.flatMap_congr h

/-- The normal form of a type refers to the same names. -/
lemma WellNamed.names_normal {t : TypeExpr} (h : WellNamed t) : t.normal.names = t.names := by
  induction h with
  | name => rfl
  | nullable _ ih => rw [TypeExpr.normal, names, ih, names]
  | array _ ih => rw [TypeExpr.normal, names_rows, ih, names]
  | union _ _ ih =>
    rw [TypeExpr.normal, names, namesOf_flatMap _ namesOf_unionMembers, normals_eq_map,
      namesOf_map ih, names]
  | intersection _ _ ih =>
    rw [TypeExpr.normal, names, namesOf_flatMap _ namesOf_intersectionMembers, normals_eq_map,
      namesOf_map ih, names]
  | generic _ _ _ _ ih => rw [TypeExpr.normal, names, normals_eq_map, namesOf_map ih, names]

/-! ### What is derived -/

/-- A type with names of the grammar and at most `k` levels, in its text or where it is held. -/
structure Fits (count : TypeExpr → Nat) (k : Nat) (t : TypeExpr) : Prop where
  isName : ∀ n ∈ t.names, IsName n
  count_le : count t ≤ k

section

variable {k : Nat} {inside : Bool} {w : Text} {t : TypeExpr} {ts : List TypeExpr}
  {part next row union : Text → TypeExpr → Prop} {separator : Text → Prop}

lemma Fits.of_held (h : Fits heldLevels k t) : Fits levels k t where
  isName := h.isName
  count_le := (levels_le_heldLevels t).trans h.count_le

lemma IsMore.forall_mem {p : TypeExpr → Prop} (hnext : ∀ w t, next w t → p t)
    (h : IsMore separator next w ts) : ∀ t ∈ ts, p t := by
  induction h with
  | nil => exact List.forall_mem_nil p
  | cons _ hw _ ih => exact List.forall_mem_cons.2 ⟨hnext _ _ hw, ih⟩

lemma IsList.forall_mem {p : TypeExpr → Prop} (hpart : ∀ w t, part w t → p t)
    (hnext : ∀ w t, next w t → p t) (h : IsList separator part next w ts) : ∀ t ∈ ts, p t := by
  obtain ⟨u, t, v, us, -, rfl, hu, hv⟩ := h
  exact List.forall_mem_cons.2 ⟨hpart u t hu, hv.forall_mem hnext⟩

lemma isName_of_mem_namesOf (h : ∀ t ∈ ts, ∀ n ∈ t.names, IsName n) :
    ∀ n ∈ namesOf ts, IsName n := by
  rw [namesOf_eq_flatMap]
  intro n hn
  obtain ⟨t, ht, hn⟩ := List.mem_flatMap.1 hn
  exact h t ht n hn

lemma fits_of_isIntersection (hrow : ∀ w t, row w t → Fits heldLevels k t)
    (h : IsIntersection inside row w t) : Fits levels k t := by
  obtain ⟨ts, rfl, hlist⟩ := h
  have hts : ∀ t ∈ ts, Fits heldLevels k t := hlist.forall_mem hrow fun w t h => hrow w t h.1
  have hmembers : Fits levels k (.intersection ts) := by
    constructor
    · exact isName_of_mem_namesOf fun t ht => (hts t ht).isName
    · rw [levels, memberLevels_eq_most]
      apply most_le.2
      intro t ht
      exact (joinedLevels_le_heldLevels t).trans (hts t ht).count_le
  match ts with
  | [t] => exact (hts t List.mem_cons_self).of_held
  | [] | _ :: _ :: _ => exact hmembers

lemma fits_of_isUnion (hrow : ∀ w t, row w t → Fits heldLevels k t) (h : IsUnion inside row w t) :
    Fits levels k t := by
  obtain ⟨ts, rfl, hlist⟩ := h
  have hpart : ∀ w t, IsIntersection inside row w t → Fits levels k t :=
    fun _ _ => fits_of_isIntersection hrow
  have hts := hlist.forall_mem hpart hpart
  have hmembers : Fits levels k (.union ts) := by
    constructor
    · exact isName_of_mem_namesOf fun t ht => (hts t ht).isName
    · rw [levels, levelsOf_eq_most]
      exact most_le.2 fun t ht => (hts t ht).count_le
  match ts with
  | [t] => exact hts t List.mem_cons_self
  | [] | _ :: _ :: _ => exact hmembers

/-- What stands between brackets has one level less. -/
lemma fits_of_opens (hrow : ∀ w t, row w t → Fits heldLevels k t)
    (hunion : ∀ w t, union w t → Fits levels k t) (h : Opens row union w t) :
    Fits heldLevels (k + 1) t := by
  cases h with
  | nullable hw =>
    have hheld := hrow _ _ hw
    exact ⟨hheld.isName, Nat.succ_le_succ hheld.count_le⟩
  | group _ hw _ =>
    have hfits := hunion _ _ hw
    exact ⟨hfits.isName, Nat.add_le_add hfits.count_le (Bool.toNat_le _)⟩
  | generic hn _ hw _ =>
    have hparams := hw.forall_mem hunion hunion
    constructor
    · rw [names]
      exact List.forall_mem_cons.2
        ⟨hn, isName_of_mem_namesOf fun t ht => (hparams t ht).isName⟩
    · have hlevels := most_le.2 fun t ht => (hparams t ht).count_le
      rw [← levelsOf_eq_most] at hlevels
      exact Nat.succ_le_succ hlevels

lemma fits_of_isRow {takesRows : Text → Prop} {atom : Text → TypeExpr → Prop}
    (hatom : ∀ w t, atom w t → Fits heldLevels k t) (h : IsRow takesRows atom w t) :
    Fits heldLevels k t := by
  obtain ⟨v, u, n, -, rfl, hv, -⟩ := h
  have hu := hatom v u hv
  constructor
  · rw [names_arrays]
    exact hu.isName
  · rw [heldLevels_arrays]
    exact hu.count_le

lemma fits_of_isAtom {takesRows : Text → Prop} (h : IsAtom takesRows k inside w t) :
    Fits heldLevels k t := by
  have hname : ∀ {k n}, IsName n → Fits heldLevels k (.name n) := fun hn =>
    ⟨List.forall_mem_singleton.2 hn, Nat.zero_le _⟩
  induction k generalizing inside w t with
  | zero =>
    rw [IsAtom.eq_def] at h
    obtain ⟨hn, rfl⟩ := h.resolve_right id
    exact hname hn
  | succ k ih =>
    have hrow : ∀ {inside} w t, IsRow takesRows (IsAtom takesRows k inside) w t →
        Fits heldLevels k t := fun _ _ => fits_of_isRow fun _ _ => ih
    rw [IsAtom.eq_def] at h
    obtain ⟨hn, rfl⟩ | h := h
    · exact hname hn
    · exact fits_of_opens hrow (fun _ _ => fits_of_isUnion hrow) h

/-- A type that is derived has names of the grammar and no more levels than were to be opened. -/
theorem fits_of_derives {takesRows : Text → Prop} (h : Derives takesRows k w t) : Fits levels k t :=
  fits_of_isUnion (fun _ _ => fits_of_isRow fun _ _ => fits_of_isAtom) h

end

end DocComment.TypeExpr
