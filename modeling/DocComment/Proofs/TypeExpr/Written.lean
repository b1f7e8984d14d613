import DocComment.Proofs.TypeExpr.Complete
import DocComment.Proofs.TypeExpr.Levels

/-!
# Types that are read from their texts

A type is *readable* if its text says all that it is: its names are names of the grammar, its
members are joined at once, no row is of a nullable type, and behind `&` no member starts with `$`
(`Readable`). The text of such a type is derived for it, at the start of a type, between signs and
behind `?` (`Derived`), if there are enough levels and no more `[]` in a row than may be read. So it
is read back from its text in front of white space (`Readable.read?_text`).
-/

namespace DocComment.TypeExpr

open Text

/-- Types whose texts leave nothing out. -/
inductive Readable : TypeExpr → Prop where
  | name {n : Text} (hn : IsName n) : Readable (.name n)
  | nullable {t : TypeExpr} (ht : Readable t) : Readable (.nullable t)
  | array {t : TypeExpr} (ht : Readable t) (hnot : ∀ u, t ≠ .nullable u) : Readable (.array t)
  | union {ts : List TypeExpr} (hlen : 2 ≤ ts.length) (hts : ∀ t ∈ ts, Readable t)
    (hnot : ∀ t ∈ ts, ∀ us, t ≠ .union us) : Readable (.union ts)
  | intersection {ts : List TypeExpr} (hlen : 2 ≤ ts.length) (hts : ∀ t ∈ ts, Readable t)
    (hnot : ∀ t ∈ ts, ∀ us, t ≠ .intersection us)
    (hoperand : ∀ t ∈ ts.tail, t.memberText.head? ≠ some '$') : Readable (.intersection ts)
  | generic {n : Text} {ts : List TypeExpr} (hn : IsName n) (hne : ts ≠ [])
    (hts : ∀ t ∈ ts, Readable t) : Readable (.generic n ts)

lemma Readable.normal {t : TypeExpr} (h : Readable t) : Normal t := by
  induction h with
  | name hn => exact .name hn.ne_nil hn.isNameChar
  | nullable _ ih => exact .nullable ih
  | array _ hnot ih => exact .array ih hnot
  | union hlen _ hnot ih => exact .union hlen ih hnot
  | intersection hlen _ hnot _ ih => exact .intersection hlen ih hnot
  | generic hn hne _ ih => exact .generic hn.ne_nil hn.isNameChar hne ih

/-! ### The texts of parts -/

/-- The types that a type is made of. -/
def parts : TypeExpr → List TypeExpr
  | .name _ => []
  | .nullable t | .array t => [t]
  | .union ts | .intersection ts | .generic _ ts => ts

lemma infix_parenthesizedIf (b : Bool) (s : Text) : s <:+: parenthesizedIf b s := by
  cases b with
  | false => exact List.infix_rfl
  | true => exact ⟨['('], [')'], rfl⟩

lemma infix_intercalate {sep p : Text} {ps : List Text} (h : p ∈ ps) :
    p <:+: sep.intercalate ps := by
  obtain ⟨before, after, rfl⟩ := List.append_of_mem h
  rw [intercalate_append_cons]
  exact List.infix_append _ _ _

/-- All parts but the first stand behind a separator. -/
lemma append_infix_intercalate {sep p q : Text} {ps : List Text} (h : p ∈ ps) :
    sep ++ p <:+: sep.intercalate (q :: ps) := by
  obtain ⟨before, after, rfl⟩ := List.append_of_mem h
  rw [intercalate_cons, List.flatMap_append, List.flatMap_cons, ← List.append_assoc,
    ← List.append_assoc]
  exact List.infix_append _ _ _

/-- The text of a type has the texts of its parts in it. -/
lemma text_infix_of_mem_parts {t u : TypeExpr} (h : u ∈ t.parts) : u.text <:+: t.text := by
  cases t with
  | name => cases h
  | nullable t =>
    obtain rfl : u = t := List.mem_singleton.1 h
    rw [text]
    exact (infix_parenthesizedIf _ _).trans (List.suffix_cons _ _).isInfix
  | array t =>
    obtain rfl : u = t := List.mem_singleton.1 h
    rw [text]
    exact (infix_parenthesizedIf _ _).trans (List.prefix_append _ _).isInfix
  | union ts =>
    rw [text, texts_eq_map]
    exact infix_intercalate (List.mem_map_of_mem h)
  | intersection ts =>
    have hmember : u.text <:+: u.memberText := infix_parenthesizedIf _ _
    rw [text, memberTexts_eq]
    exact hmember.trans (infix_intercalate (List.mem_map_of_mem h))
  | generic n ts =>
    have hparam : u.text <:+: [',', ' '].intercalate (ts.map text) :=
      infix_intercalate (List.mem_map_of_mem h)
    rw [text, texts_eq_map]
    exact hparam.trans ⟨n ++ ['<'], ['>'], by simp⟩

lemma not_infix_of_mem_parts {p : Text} {t u : TypeExpr} (h : ¬ p <:+: t.text) (hu : u ∈ t.parts) :
    ¬ p <:+: u.text := fun hwithin => h (hwithin.trans (text_infix_of_mem_parts hu))

/-! ### Derivations -/

section

variable {k : Nat} {inside : Bool} {c : Char} {t : TypeExpr} {ts : List TypeExpr}
  {part next : Text → TypeExpr → Prop} {f : TypeExpr → Text} {sep : Text}

lemma isSeparator_singleton (inside : Bool) (c : Char) : IsSeparator inside c [c] :=
  ⟨[], [], rfl, by simp [IsSpace], by simp [IsSpace]⟩

lemma isMore_flatMap {separator : Text → Prop} (hsep : separator sep)
    (hnext : ∀ t ∈ ts, next (f t) t) :
    IsMore separator next ((ts.map f).flatMap (sep ++ ·)) ts := by
  induction ts with
  | nil => exact .nil
  | cons t ts ih =>
    obtain ⟨ht, hts⟩ := List.forall_mem_cons.1 hnext
    rw [List.map_cons, List.flatMap_cons, List.append_assoc]
    exact .cons hsep ht (ih hts)

/-- Parts that are joined are a list. -/
lemma isList_intercalate {separator : Text → Prop} (hsep : separator sep) (hne : ts ≠ [])
    (hpart : ∀ t ∈ ts, part (f t) t) (hnext : ∀ t ∈ ts.tail, next (f t) t) :
    IsList separator part next (sep.intercalate (ts.map f)) ts := by
  obtain ⟨t, ts, rfl⟩ := List.exists_cons_of_ne_nil hne
  rw [List.map_cons, intercalate_cons]
  exact ⟨f t, t, _, ts, rfl, rfl, hpart t List.mem_cons_self, isMore_flatMap hsep hnext⟩

/-- What the text of a type is derived as, with as many levels as it has. -/
structure Derived (t : TypeExpr) : Prop where
  row {k : Nat} {inside : Bool} (hk : t.heldLevels ≤ k) : Row k inside t.heldText t
  intersection {k : Nat} {inside : Bool} (hnot : t.isUnion = false) (hk : t.levels ≤ k) :
    IsIntersection inside (Row k inside) t.text t
  union {k : Nat} {inside : Bool} (hk : t.levels ≤ k) : IsUnion inside (Row k inside) t.text t

namespace Derived

/-- A type that is written alike wherever it is held. -/
lemma of_row (hnot : t.isCompound = false)
    (hrow : ∀ {k inside}, t.levels ≤ k → Row k inside t.text t) : Derived t where
  row hk := by
    rw [heldText, hnot]
    exact hrow ((levels_le_heldLevels t).trans hk)
  intersection _ hk := ⟨[t], rfl, .single (hrow hk)⟩
  union hk := .of_row (hrow hk)

/-- A type that is held between parentheses. -/
lemma of_compound (hcompound : t.isCompound)
    (hintersection : ∀ {k inside}, t.isUnion = false → t.levels ≤ k →
      IsIntersection inside (Row k inside) t.text t)
    (hunion : ∀ {k inside}, t.levels ≤ k → IsUnion inside (Row k inside) t.text t) : Derived t where
  row {k inside} hk := by
    rw [heldLevels, hcompound] at hk
    obtain ⟨k, rfl⟩ := Nat.exists_eq_add_of_le' (Nat.le_of_add_left_le hk)
    have hspace : IsSpace true [] := by simp [IsSpace]
    have hgroup : IsAtom IsPrimary (k + 1) inside ('(' :: ([] ++ (t.text ++ ([] ++ [')'])))) t :=
      .of_opens (.group hspace (hunion (Nat.le_of_succ_le_succ hk)) hspace)
    rw [heldText, hcompound]
    exact .of_atom hgroup
  intersection := hintersection
  union := hunion

lemma name {n : Text} (hn : IsName n) : Derived (.name n) :=
  of_row rfl fun _ => .of_atom (.of_name hn)

lemma nullable (h : Derived t) : Derived (.nullable t) := by
  apply of_row rfl
  intro k inside hk
  obtain ⟨k, rfl⟩ := Nat.exists_eq_add_of_le' (Nat.le_of_add_left_le hk)
  have hrow : Row k inside t.heldText t := h.row (Nat.le_of_succ_le_succ hk)
  exact .of_atom (.of_opens (.nullable hrow))

/-- The brackets behind a type go on with its row. -/
lemma array (h : Derived t) (ht : Normal t) (hnot : ∀ u, t ≠ .nullable u)
    (hrows : ¬ brackets (maxNesting + 1) <:+: (TypeExpr.array t).text) : Derived (.array t) := by
  apply of_row rfl
  intro k inside hk
  have hrow : Row k inside t.heldText t := h.row hk
  obtain ⟨v, u, n, htext, hu, hv, hle, -⟩ := hrow
  have hwritten : (TypeExpr.array t).text = v ++ brackets (n + 1) := by
    rw [brackets_succ, ← List.append_assoc, ← htext]
    rfl
  have hprimary : IsPrimary v := by
    have hhead := ht.head?_heldText hnot
    rwa [htext, List.head?_append_of_ne_nil _ hv.starts.ne_nil] at hhead
  have hlt : n < maxNesting := by
    -- With `maxNesting` of them in the row already, one more is the one too many.
    apply Nat.lt_of_le_of_ne hle
    rintro rfl
    apply hrows
    rw [hwritten]
    exact (List.suffix_append v _).isInfix
  refine ⟨v, u, n + 1, hwritten, ?_, hv, hlt, .inr hprimary⟩
  rw [arrays_succ, ← hu]

lemma of_intersection (hlen : 2 ≤ ts.length) (hts : ∀ t ∈ ts, Derived t)
    (hnot : ∀ t ∈ ts, ∀ us, t ≠ .intersection us)
    (hoperand : ∀ t ∈ ts.tail, t.memberText.head? ≠ some '$') : Derived (.intersection ts) := by
  have hwritten : (TypeExpr.intersection ts).text = ['&'].intercalate (ts.map memberText) := by
    rw [text, memberTexts_eq]
  have hintersection : ∀ {k inside}, (TypeExpr.intersection ts).levels ≤ k →
      IsIntersection inside (Row k inside) (TypeExpr.intersection ts).text (.intersection ts) := by
    intro k inside hk
    rw [levels, memberLevels_eq_most] at hk
    have hrow : ∀ t ∈ ts, Row k inside t.memberText t := by
      intro t ht
      have hlevels := most_le.1 hk t ht
      rw [← heldLevels_of_ne_intersection (hnot t ht)] at hlevels
      rw [memberText_of_ne_intersection (hnot t ht)]
      exact (hts t ht).row hlevels
    rw [hwritten]
    refine ⟨ts, (collapse_of_two_le hlen).symm, ?_⟩
    apply isList_intercalate (isSeparator_singleton _ _) (ne_nil_of_two_le hlen) hrow
    intro t ht
    have hmember := hrow t (List.mem_of_mem_tail ht)
    obtain ⟨c, hc, hstart⟩ := hmember.starts
    refine ⟨hmember, hoperand t ht, fun hdot => ?_⟩
    obtain rfl : c = '.' := Option.some.inj (hc.symm.trans hdot)
    cases hstart
  apply of_compound rfl
  · intro k inside _ hk
    exact hintersection hk
  · intro k inside hk
    exact ⟨[_], rfl, .single (hintersection hk)⟩

lemma of_union (hlen : 2 ≤ ts.length) (hts : ∀ t ∈ ts, Derived t)
    (hnot : ∀ t ∈ ts, ∀ us, t ≠ .union us) : Derived (.union ts) := by
  have hwritten : (TypeExpr.union ts).text = ['|'].intercalate (ts.map text) := by
    rw [text, texts_eq_map]
  apply of_compound rfl
  · intro k inside hunion
    cases hunion
  · intro k inside hk
    rw [levels, levelsOf_eq_most] at hk
    have hpart : ∀ t ∈ ts, IsIntersection inside (Row k inside) t.text t := fun t ht =>
      (hts t ht).intersection (isUnion_of_ne_union (hnot t ht)) (most_le.1 hk t ht)
    rw [hwritten]
    refine ⟨ts, (collapse_of_two_le hlen).symm, ?_⟩
    apply isList_intercalate (isSeparator_singleton _ _) (ne_nil_of_two_le hlen) hpart
    exact fun t ht => hpart t (List.mem_of_mem_tail ht)

lemma generic {n : Text} (hn : IsName n) (hne : ts ≠ []) (hts : ∀ t ∈ ts, Derived t) :
    Derived (.generic n ts) := by
  apply of_row rfl
  intro k inside hk
  rw [levels, levelsOf_eq_most] at hk
  obtain ⟨k, rfl⟩ := Nat.exists_eq_add_of_le' (Nat.le_of_add_left_le hk)
  have hpart : ∀ t ∈ ts, IsUnion true (Row k true) t.text t := fun t ht =>
    (hts t ht).union (most_le.1 (Nat.le_of_succ_le_succ hk) t ht)
  have hspace : IsSpace true [] := by simp [IsSpace]
  have hsep : IsSeparator true ',' [',', ' '] :=
    ⟨[], [' '], rfl, hspace, List.forall_mem_singleton.2 ⟨rfl, rfl⟩⟩
  have hlist : IsList (IsSeparator true ',') (IsUnion true (Row k true)) (IsUnion true (Row k true))
      ([',', ' '].intercalate (ts.map text)) ts :=
    isList_intercalate hsep hne hpart fun t ht => hpart t (List.mem_of_mem_tail ht)
  have hatom : IsAtom IsPrimary (k + 1) inside
      (n ++ '<' :: ([] ++ ([',', ' '].intercalate (ts.map text) ++ ([] ++ ['>']))))
        (.generic n ts) :=
    .of_opens (.generic hn hspace hlist hspace)
  rw [text, texts_eq_map, List.append_assoc]
  exact .of_atom hatom

end Derived

end

/-! ### Reading back -/

/-- The text of a readable type is derived for the type, since the texts of its parts have no more
`[]` in a row than its own. -/
lemma Readable.derived {t : TypeExpr} (h : Readable t)
    (hrows : ¬ brackets (maxNesting + 1) <:+: t.text) : Derived t := by
  induction h with
  | name hn => exact .name hn
  | nullable _ ih => exact (ih (not_infix_of_mem_parts hrows List.mem_cons_self)).nullable
  | array ht hnot ih =>
    exact (ih (not_infix_of_mem_parts hrows List.mem_cons_self)).array ht.normal hnot hrows
  | union hlen _ hnot ih =>
    exact .of_union hlen (fun t ht => ih t ht (not_infix_of_mem_parts hrows ht)) hnot
  | intersection hlen _ hnot hoperand ih =>
    exact .of_intersection hlen
      (fun t ht => ih t ht (not_infix_of_mem_parts hrows ht)) hnot hoperand
  | generic hn hne _ ih =>
    exact .generic hn hne fun t ht => ih t ht (not_infix_of_mem_parts hrows ht)

/-- A readable type is read back from its text in front of white space, or at the end, if the text
has no more levels and no more `[]` in a row than may be read. -/
theorem Readable.read?_text {t : TypeExpr} {rest : Text} (ht : Readable t)
    (hlevels : t.levels ≤ maxNesting) (hrows : ¬ brackets (maxNesting + 1) <:+: t.text)
    (hrest : ∀ c ∈ rest.head?, isWhiteSpace c) :
    read? (t.text ++ rest) = some (t, byteSize t.text) :=
  read?_append ((ht.derived hrows).union hlevels) hrest

/-- A nullable row of unions in front of a variable. -/
theorem Readable.read?_text_row :
    let t : TypeExpr := .nullable (.array (.union [.intersection [.name "$this".toList,
      .generic "Map".toList [.name "\\K".toList, .nullable (.name "int".toList)]],
      .name "null".toList]))
    (Readable t ∧ t.levels ≤ maxNesting ∧ ¬ brackets (maxNesting + 1) <:+: t.text ∧
      ∀ c ∈ " $x".toList.head?, isWhiteSpace c) ∧
    t.text ++ " $x".toList = "?($this&Map<\\K, ?int>|null)[] $x".toList ∧
    read? (t.text ++ " $x".toList) = some (t, 29) := by
  intro t
  have hthis : Readable (.name "$this".toList) :=
    .name ⟨_, _, rfl, rfl, List.all_eq_true.1 rfl, fun _ => rfl⟩
  have hword : ∀ {c : Char} {cs : Text}, isNameStart c → cs.all isNameChar → c ≠ '$' →
      IsName (c :: cs) := fun hc hcs hne =>
    ⟨_, _, rfl, hc, List.all_eq_true.1 hcs, fun h => absurd h hne⟩
  have hkey : Readable (.name "\\K".toList) := .name (hword rfl rfl (by decide))
  have hint : Readable (.name "int".toList) := .name (hword rfl rfl (by decide))
  have hnull : Readable (.name "null".toList) := .name (hword rfl rfl (by decide))
  have hmap : Readable (.generic "Map".toList
      [.name "\\K".toList, .nullable (.name "int".toList)]) :=
    .generic (hword rfl rfl (by decide)) (List.cons_ne_nil _ _)
      (List.forall_mem_cons.2 ⟨hkey, List.forall_mem_singleton.2 hint.nullable⟩)
  have hmembers := Readable.intersection le_rfl
    (List.forall_mem_cons.2 ⟨hthis, List.forall_mem_singleton.2 hmap⟩) (by simp)
    (List.forall_mem_singleton.2 (by decide))
  have hunion := Readable.union le_rfl
    (List.forall_mem_cons.2 ⟨hmembers, List.forall_mem_singleton.2 hnull⟩) (by simp)
  have ht : Readable t := .nullable (.array hunion nofun)
  have hlevels : t.levels ≤ maxNesting := by decide
  have hrows : ¬ brackets (maxNesting + 1) <:+: t.text := not_brackets_infix (by decide)
  have hspace : ∀ c ∈ " $x".toList.head?, isWhiteSpace c := by
    rintro c ⟨⟩
    rfl
  have htext : t.text ++ " $x".toList = "?($this&Map<\\K, ?int>|null)[] $x".toList := by decide
  have hsize : byteSize t.text = 29 := by decide
  rw [← hsize]
  exact ⟨⟨ht, hlevels, hrows, hspace⟩, htext, ht.read?_text hlevels hrows hspace⟩

end DocComment.TypeExpr
