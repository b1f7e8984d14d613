import DocComment.Proofs.TypeExpr.Brackets

/-!
# Types that are written and read again

A text belongs to no more than one type in normal form: what the grammar derives from the text of
such a type is that type (`Normal.eq_of_derives`). So a type that is written and read again is read
as its normal form, if white space or nothing follows what is read (`WellNamed.eq_normal_of_read?`).
It may not be read at all, since its text can have more `[]` in a row than one atom may have.
-/

namespace DocComment.TypeExpr

open Text

/-! ### Lists of parts -/

section

variable {inside : Bool} {c : Char} {sp : Text} {part next : Text → TypeExpr → Prop}
  {f : TypeExpr → Text} {m : TypeExpr} {ms us : List TypeExpr}

/-- A run of characters of a class ends in front of the first character that is not of it. -/
lemma eq_of_run_append {p : Char → Bool} {l l' x y : Text} (hl : ∀ d ∈ l, p d)
    (hl' : ∀ d ∈ l', p d) (hx : ∀ d ∈ x.head?, p d = false) (hy : ∀ d ∈ y.head?, p d = false)
    (h : l ++ x = l' ++ y) : l = l' ∧ x = y := by
  induction l generalizing l' with
  | nil =>
    cases l' with
    | nil => exact ⟨rfl, h⟩
    | cons d l' =>
      obtain rfl : x = d :: (l' ++ y) := h
      have hd := hx d rfl
      rw [hl' d List.mem_cons_self] at hd
      cases hd
  | cons d l ih =>
    cases l' with
    | nil =>
      obtain rfl : d :: (l ++ x) = y := h
      have hd := hy d rfl
      rw [hl d List.mem_cons_self] at hd
      cases hd
    | cons e l' =>
      obtain ⟨rfl, hrest⟩ := List.cons.inj h
      obtain ⟨rfl, rfl⟩ := ih (fun d hd => hl d (List.mem_cons_of_mem _ hd))
        (fun d hd => hl' d (List.mem_cons_of_mem _ hd)) hrest
      exact ⟨rfl, rfl⟩

/-- Text that ends with no white space ends with none that is split off. -/
lemma eq_nil_of_append_space {u l v : Text} (hl : ∀ d ∈ l, isWhiteSpace d)
    (hv : ∀ d ∈ v.getLast?, isWhiteSpace d = false) (h : u ++ l = v) : l = [] := by
  rcases List.eq_nil_or_concat' l with rfl | ⟨l, d, rfl⟩
  · rfl
  · have hd := hl d (by simp)
    rw [hv d (by simp [← h])] at hd
    cases hd

/-- A written part has no white space around it, and no separator outside of brackets. -/
structure IsPart (c : Char) (s : Text) : Prop where
  encloses : encloses (· = c) 0 s
  head? : ∀ d ∈ s.head?, isWhiteSpace d = false
  getLast? : ∀ d ∈ s.getLast?, isWhiteSpace d = false

lemma IsWritten.isWhiteSpace_head? {s : Text} (h : IsWritten s) :
    ∀ d ∈ s.head?, isWhiteSpace d = false := fun d hd =>
  isWhiteSpace_of_isTypeChar (h.isTypeChar d (List.mem_of_mem_head? hd)) fun he => h.head? (he ▸ hd)

lemma IsWritten.isWhiteSpace_getLast? {s : Text} (h : IsWritten s) :
    ∀ d ∈ s.getLast?, isWhiteSpace d = false := fun d hd =>
  isWhiteSpace_of_isTypeChar (h.isTypeChar d (List.mem_of_getLast? hd)) fun he =>
    h.getLast? (he ▸ hd)

lemma IsWritten.isPart {s : Text} (h : IsWritten s) (hs : TypeExpr.encloses (· = c) 0 s) :
    IsPart c s where
  encloses := hs
  head? := h.isWhiteSpace_head?
  getLast? := h.isWhiteSpace_getLast?

/-- Behind a written part stands a separator. -/
lemma eq_of_mem_head?_parts {d : Char} (hd : d ∈ (ms.flatMap (c :: sp ++ f ·)).head?) : d = c := by
  cases ms with
  | nil => cases hd
  | cons n ms => exact (Option.some.inj hd).symm

/-- Written parts start with no white space, also if the first has no text. -/
lemma IsPart.isWhiteSpace_head? {s : Text} (h : IsPart c s) (hc : isWhiteSpace c = false) :
    ∀ d ∈ (s ++ ms.flatMap (c :: sp ++ f ·)).head?, isWhiteSpace d = false := by
  intro d hd
  by_cases hnil : s = []
  · rw [hnil, List.nil_append] at hd
    rwa [eq_of_mem_head?_parts hd]
  · rw [List.head?_append_of_ne_nil _ hnil] at hd
    exact h.head? d hd

variable (hc : isBracket c = false ∧ isWhiteSpace c = false) (hsp : ∀ d ∈ sp, isWhiteSpace d)
  (hpart : ∀ w t, part w t → encloses (· = c) 0 w ∧ Starts w)
  (hnext : ∀ w t, next w t → part w t)

include hc hsp hpart hnext

/-- Parts with separators between them are the written parts that they are read from. -/
lemma eq_of_isMore {u v : Text} {t : TypeExpr} (hu : part u t)
    (hv : IsMore (IsSeparator inside c) next v us) (hf : ∀ n ∈ m :: ms, IsPart c (f n))
    (heq : ∀ n ∈ m :: ms, ∀ t, part (f n) t → t = n)
    (h : u ++ v = f m ++ ms.flatMap (c :: sp ++ f ·)) : t = m ∧ us = ms := by
  have hends : endsForm (· = c) c := by simp [endsForm, hc.1]
  have htail (ms : List TypeExpr) : ∀ d ∈ (ms.flatMap (c :: sp ++ f ·)).head?,
      endsForm (· = c) d := fun d hd => eq_of_mem_head?_parts hd ▸ hends
  induction hv generalizing u t m ms with
  | nil =>
    have hfm := hf m List.mem_cons_self
    obtain ⟨rfl, hnil⟩ := eq_of_encloses (hpart u t hu).1 hfm.encloses h (by simp) (htail ms)
    refine ⟨heq m List.mem_cons_self t hu, ?_⟩
    cases ms with
    | nil => rfl
    | cons n ms => simp at hnil
  | @cons s w v' t' ts hs hw hv' ih =>
    obtain ⟨l, r, rfl, hl, hr⟩ := hs
    have hfm := hf m List.mem_cons_self
    have hspace : encloses (· = c) 0 (u ++ l) := by
      refine encloses_append (hpart u t hu).1
        (hl.encloses fun _ d hd => decide_eq_false fun he => ?_)
      rw [he, hc.2] at hd
      cases hd
    have hcut : (u ++ l) ++ c :: (r ++ (w ++ v')) = f m ++ ms.flatMap (c :: sp ++ f ·) := by
      rw [← h]
      simp
    obtain ⟨hm, hrest⟩ := eq_of_encloses hspace hfm.encloses hcut
      (fun d hd => by
        obtain rfl : c = d := by simpa using hd
        exact hends) (htail ms)
    obtain rfl := eq_nil_of_append_space (fun d hd => (hl d hd).2) hfm.getLast? hm
    rw [List.append_nil] at hm
    cases ms with
    | nil => cases hrest
    | cons n ms =>
      have hn : ∀ d ∈ (f n ++ ms.flatMap (c :: sp ++ f ·)).head?, isWhiteSpace d = false :=
        (hf n (by simp)).isWhiteSpace_head? hc.2
      have hw' : ∀ d ∈ (w ++ v').head?, isWhiteSpace d = false := by
        intro d hd
        obtain ⟨e, he, hstart⟩ := ((hpart w t' (hnext w t' hw)).2.append v')
        obtain rfl : e = d := Option.some.inj (he.symm.trans hd)
        exact isWhiteSpace_of_startsType hstart
      have hrest' : r ++ (w ++ v') = sp ++ (f n ++ ms.flatMap (c :: sp ++ f ·)) := by
        simpa using hrest
      obtain ⟨-, hnext'⟩ := eq_of_run_append (fun d hd => (hr d hd).2) hsp hw' hn hrest'
      obtain ⟨rfl, rfl⟩ := ih (hnext w t' hw) (fun k hk => hf k (List.mem_cons_of_mem _ hk))
        (fun k hk => heq k (List.mem_cons_of_mem _ hk)) hnext'
      exact ⟨heq m List.mem_cons_self t (hm ▸ hu), rfl⟩

/-- A list that is written is read as its members. -/
lemma eq_of_isList (hne : ms ≠ []) (hf : ∀ n ∈ ms, IsPart c (f n))
    (heq : ∀ n ∈ ms, ∀ t, part (f n) t → t = n)
    (h : IsList (IsSeparator inside c) part next ((c :: sp).intercalate (ms.map f)) us) :
    us = ms := by
  obtain ⟨m, ms, rfl⟩ := List.exists_cons_of_ne_nil hne
  obtain ⟨u, t, v, us, hw, rfl, hu, hv⟩ := h
  have hjoin : (c :: sp).intercalate ((m :: ms).map f) = f m ++ ms.flatMap (c :: sp ++ f ·) := by
    rw [List.map_cons, intercalate_cons, List.flatMap_map]
  obtain ⟨rfl, rfl⟩ := eq_of_isMore hc hsp hpart hnext hu hv hf heq (hw.symm.trans hjoin)
  rfl

end

/-! ### Unions and intersections -/

section

variable {inside : Bool} {row : Text → TypeExpr → Prop} {t u : TypeExpr}

lemma collapse_unionMembers (h : Normal u) : collapse .union u.unionMembers = u := by
  cases h with
  | union hlen => exact collapse_of_two_le hlen
  | _ => rfl

lemma collapse_intersectionMembers (h : Normal u) :
    collapse .intersection u.intersectionMembers = u := by
  cases h with
  | intersection hlen => exact collapse_of_two_le hlen
  | _ => rfl

lemma memberText_of_ne_intersection (hnot : ∀ us, u ≠ .intersection us) :
    u.memberText = u.heldText := by
  cases u with
  | intersection us => exact absurd rfl (hnot us)
  | _ => rfl

lemma isUnion_of_ne_union (hnot : ∀ us, u ≠ .union us) : u.isUnion = false := by
  cases u with
  | union us => exact absurd rfl (hnot us)
  | _ => rfl

variable (hpairs : Pairs isJoint row) (hstarts : ∀ {w t}, row w t → Starts w)
  (heq : ∀ t u, Normal u → row u.heldText t → t = u)

include hpairs hstarts heq

/-- What is derived as an intersection from a text that is written is the type itself. -/
lemma Normal.eq_of_isIntersection (hu : Normal u) (hnot : u.isUnion = false)
    (h : IsIntersection inside row u.text t) : t = u := by
  have htext : u.text = ['&'].intercalate (u.intersectionMembers.map memberText) := by
    rw [← memberText_eq_intercalate, memberText, hnot]
    rfl
  obtain ⟨ts, rfl, hlist⟩ := h
  rw [htext] at hlist
  have hts : ts = u.intersectionMembers := by
    refine eq_of_isList ⟨rfl, rfl⟩ (by simp) (fun w t hw => ⟨?_, hstarts hw⟩) (fun w t hw => hw.1)
      hu.intersectionMembers_ne_nil (fun m hm => ?_) (fun m hm t ht => ?_) hlist
    · exact encloses_mono (fun c hc => by simp_all [isJoint]) (hpairs hw)
    all_goals
      obtain ⟨hnormal, hne⟩ := hu.of_mem_intersectionMembers m hm
      rw [memberText_of_ne_intersection hne] at *
    · refine (hnormal.wellNamed.isWritten.parenthesizedIf _).isPart ?_
      exact encloses_mono (fun c hc => by simp_all [isJoint])
        hnormal.wellNamed.enclosesJoints.heldText
    · exact heq t m hnormal ht
  rw [hts]
  exact collapse_intersectionMembers hu

/-- What is derived as a union from a text that is written is the type itself. -/
lemma Normal.eq_of_isUnion (hu : Normal u) (h : IsUnion inside row u.text t) : t = u := by
  obtain ⟨ts, rfl, hlist⟩ := h
  rw [text_eq_intercalate] at hlist
  have hts : ts = u.unionMembers := by
    refine eq_of_isList ⟨rfl, rfl⟩ (by simp) (fun w t hw => ⟨?_, hw.starts hstarts⟩)
      (fun w t hw => hw) hu.unionMembers_ne_nil (fun m hm => ?_) (fun m hm t ht => ?_) hlist
    · refine pairs_isIntersection hpairs (fun c hc => by simp_all [isJoint]) rfl
        (fun _ d hd => ?_) hw
      refine decide_eq_false ?_
      rintro rfl
      cases hd
    all_goals
      obtain ⟨hnormal, hne⟩ := hu.of_mem_unionMembers m hm
    · refine hnormal.wellNamed.isWritten.isPart (hnormal.wellNamed.enclosesJoints _ ?_ ?_ ?_)
      · exact fun c hc => by simp_all [isJoint]
      · exact fun _ => rfl
      · simp [isUnion_of_ne_union hne]
    · exact hnormal.eq_of_isIntersection hpairs hstarts heq (isUnion_of_ne_union hne) ht
  rw [hts]
  exact collapse_unionMembers hu

end

/-! ### Rows -/

section

variable {u s t : TypeExpr} {levels : Nat} {inside : Bool} {v w x y l r : Text} {n : Nat}

lemma isNameChar_head?_brackets (n : Nat) : ∀ c ∈ (brackets n).head?, isNameChar c = false := by
  cases n with
  | zero => simp [brackets]
  | succ n =>
    intro c hc
    obtain rfl : '[' = c := by simpa [brackets] using hc
    rfl

lemma isNameChar_head?_append (hne : v ≠ []) (hv : ∀ c ∈ v, isNameChar c) (x : Text) :
    ∃ c ∈ (v ++ x).head?, isNameChar c := by
  obtain ⟨c, v, rfl⟩ := List.exists_cons_of_ne_nil hne
  exact ⟨c, rfl, hv c List.mem_cons_self⟩

lemma IsName.ne_nil (h : IsName v) : v ≠ [] := h.starts.ne_nil

/-- A row in which at most `levels` of `?`, `(` and `<` are open at once. -/
abbrev Row (levels : Nat) (inside : Bool) : Text → TypeExpr → Prop :=
  IsRow IsPrimary (IsAtom IsPrimary levels inside)

lemma Row.starts (h : Row levels inside v t) : Starts v := IsRow.starts IsAtom.starts h

lemma pairs_row (levels : Nat) (inside : Bool) : Pairs isJoint (Row levels inside) :=
  pairs_isRow (pairs_isAtom levels inside)

lemma encloses_isUnion (h : IsUnion inside (Row levels inside) w t) :
    encloses (fun _ => false) 0 w :=
  have hpairs : Pairs (fun _ => false) (IsUnion inside (Row levels inside)) :=
    pairs_isUnion (pairs_row levels inside) nofun rfl rfl fun _ _ _ => rfl
  hpairs h

/-- A name or an atom that opens a level. -/
lemma isAtom_cases (h : IsAtom IsPrimary levels inside v t) : (IsName v ∧ t = .name v) ∨
    ∃ k < levels, Opens (Row k inside) (IsUnion true (Row k true)) v t := by
  rw [IsAtom.eq_def] at h
  refine h.imp_right fun h => ?_
  cases levels with
  | zero => exact h.elim
  | succ k => exact ⟨k, Nat.lt_succ_self k, h⟩

/-- An atom that starts with a sign. -/
lemma isAtom_of_sign {c : Char} (h : IsAtom IsPrimary levels inside v t)
    (hc : isNameChar c = false) (hhead : (v ++ x).head? = some c) : ∃ k < levels,
      (∃ w s, v = '?' :: w ∧ t = .nullable s ∧ Row k inside w s) ∨
      ∃ l w r, v = '(' :: (l ++ (w ++ (r ++ [')']))) ∧ IsSpace true l ∧ IsSpace true r ∧
        IsUnion true (Row k true) w t := by
  have hname : ∀ {n x : Text}, IsName n → (n ++ x).head? ≠ some c := by
    intro n x hn hhead
    obtain ⟨d, hd, hchar⟩ := isNameChar_head?_append hn.ne_nil hn.isNameChar x
    obtain rfl : d = c := Option.some.inj (hd.symm.trans hhead)
    rw [hc] at hchar
    cases hchar
  rcases isAtom_cases h with ⟨hn, -⟩ | ⟨k, hk, hopens⟩
  · exact absurd hhead (hname hn)
  refine ⟨k, hk, ?_⟩
  cases hopens with
  | nullable hw => exact .inl ⟨_, _, rfl, rfl, hw⟩
  | group hl hw hr => exact .inr ⟨_, _, _, rfl, hl, hr, hw⟩
  | generic hn =>
    rw [List.append_assoc] at hhead
    exact absurd hhead (hname hn)

/-- An atom that starts as names do. -/
lemma isAtom_of_isNameChar {c : Char} (h : IsAtom IsPrimary levels inside v t) (hc : isNameChar c)
    (hhead : (v ++ x).head? = some c) : (IsName v ∧ t = .name v) ∨ ∃ k < levels, ∃ n l w r ts,
      v = n ++ '<' :: (l ++ (w ++ (r ++ ['>']))) ∧ t = .generic n ts ∧ IsName n ∧ IsSpace true l ∧
        IsSpace true r ∧
        IsList (IsSeparator true ',') (IsUnion true (Row k true)) (IsUnion true (Row k true))
          w ts := by
  refine (isAtom_cases h).imp_right ?_
  rintro ⟨k, hk, hopens⟩
  cases hopens with
  | nullable =>
    obtain rfl : '?' = c := Option.some.inj hhead
    cases hc
  | group =>
    obtain rfl : '(' = c := Option.some.inj hhead
    cases hc
  | generic hn hl hw hr => exact ⟨k, hk, _, _, _, _, _, rfl, rfl, hn, hl, hr, hw⟩

/-- Only the text of a nullable type starts with `?`. -/
lemma Normal.head?_heldText (h : Normal u) (hnot : ∀ s, u ≠ .nullable s) :
    u.heldText.head? ≠ some '?' := by
  have hname : ∀ {n : Text}, n ≠ [] → (∀ c ∈ n, isNameChar c) → ∀ x, (n ++ x).head? ≠ some '?' := by
    intro n hne hn x hhead
    obtain ⟨c, hc, hchar⟩ := isNameChar_head?_append hne hn x
    obtain rfl : c = '?' := Option.some.inj (hc.symm.trans hhead)
    cases hchar
  induction h with
  | @name n hne hn =>
    rw [← List.append_nil (heldText _)]
    exact hname hne hn []
  | nullable => exact absurd rfl (hnot _)
  | @array t _ hne ih =>
    show (t.heldText ++ ['[', ']']).head? ≠ some '?'
    rw [List.head?_append]
    intro hhead
    cases ht : t.heldText.head? with
    | none =>
      rw [ht] at hhead
      cases hhead
    | some c =>
      rw [ht] at hhead
      exact ih hne (ht.trans hhead)
  | union => nofun
  | intersection => nofun
  | @generic n ts hne hn _ _ =>
    show (n ++ '<' :: [',', ' '].intercalate (texts ts) ++ ['>']).head? ≠ some '?'
    rw [List.append_assoc]
    exact hname hne hn _

/-- An atom that takes `[]` does not end with them. -/
lemma IsAtom.getLast?_of_isPrimary (h : IsAtom IsPrimary levels inside v t)
    (hprimary : IsPrimary v) : ∀ c ∈ v.getLast?, c ∉ ['[', ']'] := by
  rcases isAtom_cases h with ⟨hn, -⟩ | ⟨k, -, hopens⟩
  · intro c hc hmem
    have hchar := hn.isNameChar c (List.mem_of_getLast? hc)
    simp only [List.mem_cons, List.not_mem_nil, or_false] at hmem
    rcases hmem with rfl | rfl <;> cases hchar
  · cases hopens with
    | nullable => exact absurd rfl hprimary
    | @group l w r =>
      have hlast : ('(' :: (l ++ (w ++ (r ++ [')'])))).getLast? = some ')' := by
        rw [← List.append_assoc, ← List.append_assoc, ← List.cons_append, List.getLast?_concat]
      rw [hlast]
      rintro c ⟨⟩
      decide
    | @generic n l w r =>
      have hlast : (n ++ '<' :: (l ++ (w ++ (r ++ ['>'])))).getLast? = some '>' := by
        rw [← List.append_assoc, ← List.append_assoc, ← List.cons_append, ← List.append_assoc,
          List.getLast?_concat]
      rw [hlast]
      rintro c ⟨⟩
      decide

/-- Only an atom that starts with `?` ends with brackets. -/
lemma append_brackets_ne (h : IsAtom IsPrimary levels inside v t) (hu : Normal u)
    (hnot : ∀ s, u ≠ .nullable s) : u.heldText ++ ['[', ']'] ≠ v := by
  rintro rfl
  have hprimary : IsPrimary (u.heldText ++ ['[', ']']) := by
    have hne : u.heldText ≠ [] := (hu.wellNamed.isWritten.parenthesizedIf u.isCompound).ne_nil
    rw [IsPrimary, List.head?_append_of_ne_nil _ hne]
    exact hu.head?_heldText hnot
  exact h.getLast?_of_isPrimary hprimary ']' (by simp) (by simp)

/-- Between brackets, white space around a written text is not part of it. -/
lemma eq_of_bracketed {d : Char} (hd : d = ')' ∨ d = '>') (hl : IsSpace true l)
    (hr : IsSpace true r) (hstart : Starts w) (hw : encloses (fun _ => false) 0 w)
    (hv : IsWritten v) (hpairs : encloses (fun _ => false) 0 v)
    (h : l ++ (w ++ (r ++ [d])) ++ x = v ++ d :: y) : w = v ∧ x = y := by
  have hends : ∀ z : Text, ∀ c ∈ (d :: z).head?, endsForm (fun _ => false) c := by
    intro z c hc
    obtain rfl := Option.some.inj hc
    rcases hd with rfl | rfl <;> rfl
  have hspace : ∀ {l : Text}, IsSpace true l → encloses (fun _ => false) 0 l :=
    fun hl => hl.encloses fun _ _ _ => rfl
  have hinner := encloses_append (hspace hl) (encloses_append hw (hspace hr))
  have hcut : (l ++ (w ++ r)) ++ d :: x = v ++ d :: y := by
    rw [← h]
    simp
  obtain ⟨hsame, hrest⟩ := eq_of_encloses hinner hpairs hcut (hends x) (hends y)
  have hwr : ∀ c ∈ (w ++ r).head?, isWhiteSpace c = false := by
    intro c hc
    obtain ⟨e, he, hse⟩ := hstart.append r
    obtain rfl : e = c := Option.some.inj (he.symm.trans hc)
    exact isWhiteSpace_of_startsType hse
  obtain ⟨-, hwv⟩ := eq_of_run_append (p := isWhiteSpace) (fun c hc => (hl c hc).2)
    (by simp : ∀ c ∈ ([] : Text), isWhiteSpace c) hwr hv.isWhiteSpace_head? hsame
  obtain rfl := eq_nil_of_append_space (fun c hc => (hr c hc).2) hv.isWhiteSpace_getLast? hwv
  rw [List.append_nil] at hwv
  exact ⟨hwv, (List.cons.inj hrest).2⟩

end

section

variable {levels : Nat}
  (ih : ∀ k < levels, ∀ {inside t u}, Normal u → Row k inside u.heldText t → t = u)
  {inside : Bool} {t u : TypeExpr}

include ih

/-- What is derived as a union with fewer levels from a text that is written is the type itself. -/
lemma Normal.eq_of_isUnion_row {k : Nat} (hk : k < levels) {inside : Bool} (hu : Normal u)
    (h : IsUnion inside (Row k inside) u.text t) : t = u :=
  hu.eq_of_isUnion (pairs_row k inside) Row.starts (fun _ _ => ih k hk) h

/-- A union or an intersection stands between parentheses. -/
lemma Normal.eq_of_isRow_compound (hu : Normal u) (hcompound : u.isCompound)
    (h : Row levels inside u.heldText t) : t = u := by
  obtain ⟨v, a, n, hw, rfl, hv, -, -⟩ := h
  rw [heldText, hcompound, parenthesizedIf, if_pos rfl] at hw
  obtain ⟨k, hk, ⟨w, s, rfl, -⟩ | ⟨l, w, r, rfl, hl, hr, hunion⟩⟩ :=
    isAtom_of_sign (x := brackets n) hv (c := '(') rfl (by rw [← hw]; rfl)
  · cases hw
  obtain ⟨rfl, hnil⟩ := eq_of_bracketed (.inl rfl) hl hr (hunion.starts Row.starts)
    (encloses_isUnion hunion) hu.wellNamed.isWritten hu.wellNamed.enclosesJoints.pairs (y := [])
    (List.cons.inj hw).2.symm
  cases n with
  | zero => exact hu.eq_of_isUnion_row ih hk hunion
  | succ n => cases hnil

/-- The brackets behind a nullable type belong to the type after the `?`. -/
lemma Normal.eq_of_isRow_nullable (hu : Normal u) (h : Row levels inside u.nullable.heldText t) :
    t = u.nullable := by
  obtain ⟨v, a, n, hw, rfl, hv, -, htakes⟩ := h
  have hwritten : '?' :: u.heldText = v ++ brackets n := hw
  obtain ⟨k, hk, ⟨w, s, rfl, rfl, hrow⟩ | ⟨l, w, r, rfl, -⟩⟩ :=
    isAtom_of_sign (x := brackets n) hv (c := '?') rfl (by rw [← hwritten]; rfl)
  · obtain rfl : n = 0 := htakes.resolve_right fun h => h rfl
    obtain rfl : u.heldText = w := by simpa [brackets] using hwritten
    rw [ih k hk hu hrow]
    rfl
  · cases hwritten

omit ih in
/-- A name has no brackets behind it. -/
lemma eq_of_isRow_name {m : Text} (hne : m ≠ []) (hm : ∀ c ∈ m, isNameChar c)
    (h : Row levels inside (TypeExpr.name m).heldText t) : t = .name m := by
  obtain ⟨v, a, n, hw, rfl, hv, -, -⟩ := h
  have hwritten : m = v ++ brackets n := hw
  obtain ⟨c, hc, hchar⟩ := isNameChar_head?_append hne hm []
  rw [List.append_nil, hwritten] at hc
  have hall : ∀ d ∈ v ++ brackets n, isNameChar d := hwritten ▸ hm
  rcases isAtom_of_isNameChar hv hchar hc with ⟨-, rfl⟩ | ⟨k, -, m', l, w, r, ts, rfl, -⟩
  · cases n with
    | zero => rw [hwritten, brackets, List.append_nil]; rfl
    | succ n => exact absurd (hall '[' (by simp [brackets])) (by decide)
  · exact absurd (hall '<' (by simp)) (by decide)

lemma eq_of_isRow_generic {m : Text} {us : List TypeExpr} (hne : m ≠ [])
    (hm : ∀ c ∈ m, isNameChar c) (hne' : us ≠ []) (hus : ∀ u ∈ us, Normal u)
    (h : Row levels inside (TypeExpr.generic m us).heldText t) : t = .generic m us := by
  obtain ⟨v, a, n, hw, rfl, hv, -, -⟩ := h
  have hwritten : m ++ '<' :: ([',', ' '].intercalate (us.map text) ++ ['>']) =
      v ++ brackets n := by
    have htext : (TypeExpr.generic m us).heldText =
        m ++ '<' :: [',', ' '].intercalate (texts us) ++ ['>'] := rfl
    rw [← hw, htext, texts_eq_map, List.append_assoc]
    rfl
  obtain ⟨c, hc, hchar⟩ := isNameChar_head?_append hne hm
    ('<' :: ([',', ' '].intercalate (us.map text) ++ ['>']))
  rw [hwritten] at hc
  rcases isAtom_of_isNameChar hv hchar hc with
    ⟨hname, -⟩ | ⟨k, hk, m', l, w, r, ts, rfl, rfl, hname, hl, hr, hlist⟩
  · -- The name ends in front of `<`.
    obtain ⟨-, hrest⟩ := eq_of_run_append hname.isNameChar hm (isNameChar_head?_brackets n)
      (by simp; rfl) hwritten.symm
    cases n with
    | zero => cases hrest
    | succ n => cases hrest
  · rw [List.append_assoc, List.cons_append] at hwritten
    obtain ⟨rfl, hrest⟩ := eq_of_run_append hname.isNameChar hm (by simp; rfl) (by simp; rfl)
      hwritten.symm
    have hwritten' : IsWritten ([',', ' '].intercalate (us.map text)) := by
      refine .intercalate (by decide) (List.map_eq_nil_iff.not.2 hne') ?_
      exact List.forall_mem_map.2 fun u hu => (hus u hu).wellNamed.isWritten
    have hpairs' : encloses (fun _ => false) 0 ([',', ' '].intercalate (us.map text)) :=
      encloses_intercalate rfl
        (List.forall_mem_map.2 fun u hu => (hus u hu).wellNamed.enclosesJoints.pairs)
    obtain ⟨rfl, hnil⟩ := eq_of_bracketed (.inr rfl) hl hr
      (hlist.starts fun h => h.starts Row.starts)
      (hlist.encloses (fun p hp => hp.encloses rfl rfl fun _ _ _ => rfl)
        (fun _ _ => encloses_isUnion) fun _ _ => encloses_isUnion) hwritten' hpairs' (y := [])
      (List.cons.inj hrest).2
    have hts : ts = us := by
      refine eq_of_isList ⟨rfl, rfl⟩ (by simp [isWhiteSpace])
        (fun w t hw => ⟨?_, hw.starts Row.starts⟩) (fun w t hw => hw) hne' (fun u hu => ?_)
        (fun u hu t ht => ?_) hlist
      · refine pairs_isUnion (pairs_row k true) (fun c hc => by simp_all [isJoint]) rfl rfl
          (fun _ d hd => decide_eq_false ?_) hw
        rintro rfl
        cases hd
      · refine (hus u hu).wellNamed.isWritten.isPart
          ((hus u hu).wellNamed.enclosesJoints _ ?_ ?_ ?_)
        · exact fun c hc => by simp_all [isJoint]
        · exact fun _ => rfl
        · exact fun _ => rfl
      · exact (hus u hu).eq_of_isUnion_row ih hk ht
    cases n with
    | zero => rw [hts]; rfl
    | succ n => cases hnil

end

/-- What is derived as a row from a text that is written is the type itself. -/
lemma Normal.eq_of_isRow {u : TypeExpr} (hu : Normal u) {levels : Nat} {inside : Bool}
    {t : TypeExpr} (h : Row levels inside u.heldText t) : t = u := by
  induction levels using Nat.strongRecOn generalizing inside u t with
  | ind levels ih =>
    have ih' : ∀ k < levels, ∀ {inside t u}, Normal u → Row k inside u.heldText t → t = u :=
      fun k hk _ _ _ hu h => ih k hk hu h
    induction hu generalizing t with
    | name hne hm => exact eq_of_isRow_name hne hm h
    | nullable hu _ => exact hu.eq_of_isRow_nullable ih' h
    | union hlen hts hnot => exact (Normal.union hlen hts hnot).eq_of_isRow_compound ih' rfl h
    | intersection hlen hts hnot =>
      exact (Normal.intersection hlen hts hnot).eq_of_isRow_compound ih' rfl h
    | generic hne hm hne' hus => exact eq_of_isRow_generic ih' hne hm hne' hus h
    | @array u hu hnot ihu =>
      obtain ⟨v, a, n, hw, rfl, hv, hle, htakes⟩ := h
      have hwritten : u.heldText ++ ['[', ']'] = v ++ brackets n := hw
      cases n with
      | zero =>
        rw [brackets, List.append_nil] at hwritten
        exact absurd hwritten (append_brackets_ne hv hu hnot)
      | succ n =>
        rw [brackets_succ, ← List.append_assoc] at hwritten
        have hrow : Row levels inside u.heldText (arrays n a) :=
          ⟨v, a, n, List.append_cancel_right hwritten, rfl, hv, Nat.le_of_succ_le hle,
            htakes.elim (fun h => absurd h (Nat.succ_ne_zero n)) .inr⟩
        rw [arrays_succ, ihu hrow]

/-- The grammar derives no more than one type from a text that is written, and that is normal. -/
theorem Normal.eq_of_derives {u t : TypeExpr} (hu : Normal u)
    (h : Derives IsPrimary maxNesting u.text t) : t = u :=
  hu.eq_of_isUnion (pairs_row maxNesting false) Row.starts (fun _ _ hu h => hu.eq_of_isRow h) h

/-- What is read in front of white space, or at the end, from a type that is written is its normal
form, and all of its text is taken. -/
theorem WellNamed.eq_normal_of_read? {t u : TypeExpr} {n : Nat} {rest : Text} (ht : WellNamed t)
    (hrest : ∀ c ∈ rest.head?, isWhiteSpace c) (hread : read? (t.text ++ rest) = some (u, n))
    (hend : ∀ c ∈ (dropBytes n (t.text ++ rest)).head?, isWhiteSpace c) :
    u = t.normal ∧ n = byteSize t.text := by
  obtain ⟨w, rest', hw, rfl, hderives, -⟩ := sound_read? hread
  rw [hw, dropBytes_byteSize_append] at hend
  have hends : ∀ {r : Text}, (∀ c ∈ r.head?, isWhiteSpace c) →
      ∀ c ∈ r.head?, endsForm isWhiteSpace c := by
    intro r hr c hc
    simp [endsForm, hr c hc, isBracket_of_isWhiteSpace (hr c hc)]
  have hjoint : ∀ c, isWhiteSpace c → isJoint c := fun c hc => by simp [isJoint, hc]
  have hpairs : encloses isWhiteSpace 0 w :=
    pairs_isUnion (pairs_row maxNesting false) hjoint rfl rfl (fun h => by cases h) hderives
  have hpairs' : encloses isWhiteSpace 0 t.text :=
    ht.enclosesJoints isWhiteSpace hjoint (fun _ => rfl) fun _ => rfl
  obtain ⟨rfl, rfl⟩ := eq_of_encloses hpairs' hpairs hw (hends hrest) (hends hend)
  rw [← ht.text_normal] at hderives
  exact ⟨ht.normal.eq_of_derives hderives, rfl⟩

end DocComment.TypeExpr
