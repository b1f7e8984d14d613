import DocComment.Proofs.TypeExpr.Grammar
import DocComment.Proofs.TypeExpr.Normal

/-!
# Brackets in types

Where a form of types ends is known from the brackets in it: they pair, and certain characters stand
only between brackets (`encloses`). Of all starts of a text that are so no more than one is followed
by such a character (`eq_of_encloses`). The texts that the grammar derives are so, and those that
are written.
-/

namespace DocComment.TypeExpr

open Text

/-! ### Brackets that pair -/

/-- Whether the brackets pair, with `depth` more of them open in front of the text, and the
characters `bad` stand between brackets. -/
def encloses (bad : Char → Bool) : (depth : Nat) → Text → Bool
  | depth, [] => depth = 0
  | depth, c :: cs =>
    if c = '(' ∨ c = '<' then encloses bad (depth + 1) cs
    else if c = ')' ∨ c = '>' then depth ≠ 0 && encloses bad (depth - 1) cs
    else (depth ≠ 0 || !bad c) && encloses bad depth cs

/-- The brackets that `encloses` counts. -/
def isBracket (c : Char) : Bool := c ∈ ['(', '<', ')', '>']

/-- Whether a text that is like this ends in front of `c`. -/
def endsForm (bad : Char → Bool) (c : Char) : Bool := c = ')' || c = '>' || (bad c && !isBracket c)

section

variable {bad bad' : Char → Bool} {depth : Nat} {u v x y : Text} {c : Char}

lemma encloses_cons_of_not_isBracket (hc : isBracket c = false) : encloses bad depth (c :: u) =
    ((depth ≠ 0 || !bad c) && encloses bad depth u) := by
  simp only [isBracket, List.mem_cons, List.not_mem_nil, or_false, decide_eq_false_iff_not,
    not_or] at hc
  simp [encloses, hc.1, hc.2.1, hc.2.2.1, hc.2.2.2]

lemma not_encloses_cons_of_endsForm (hc : endsForm bad c) : encloses bad 0 (c :: u) = false := by
  simp only [endsForm, Bool.or_eq_true, decide_eq_true_eq, Bool.and_eq_true,
    Bool.not_eq_true'] at hc
  rcases hc with (rfl | rfl) | ⟨hbad, hbracket⟩
  · rfl
  · rfl
  · simp [encloses_cons_of_not_isBracket hbracket, hbad]

/-- The start of a text at which brackets pair and which a character ends is the only one. -/
lemma eq_of_encloses (hu : encloses bad depth u) (hv : encloses bad depth v) (h : u ++ x = v ++ y)
    (hx : ∀ c ∈ x.head?, endsForm bad c) (hy : ∀ c ∈ y.head?, endsForm bad c) : u = v ∧ x = y := by
  induction u generalizing v depth with
  | nil =>
    obtain rfl : depth = 0 := by simpa [encloses] using hu
    cases v with
    | nil => exact ⟨rfl, h⟩
    | cons c v =>
      obtain rfl : x = c :: (v ++ y) := h
      rw [not_encloses_cons_of_endsForm (hx c rfl)] at hv
      cases hv
  | cons c u ih =>
    cases v with
    | nil =>
      obtain rfl : depth = 0 := by simpa [encloses] using hv
      obtain rfl : c :: (u ++ x) = y := h
      rw [not_encloses_cons_of_endsForm (hy c rfl)] at hu
      cases hu
    | cons d v =>
      obtain ⟨rfl, hrest⟩ := List.cons.inj h
      have hboth : ∃ depth', encloses bad depth' u ∧ encloses bad depth' v := by
        rw [encloses] at hu hv
        split_ifs at hu hv
        · exact ⟨_, hu, hv⟩
        · exact ⟨_, (Bool.and_eq_true_iff.1 hu).2, (Bool.and_eq_true_iff.1 hv).2⟩
        · exact ⟨_, (Bool.and_eq_true_iff.1 hu).2, (Bool.and_eq_true_iff.1 hv).2⟩
      obtain ⟨depth', hu', hv'⟩ := hboth
      obtain ⟨rfl, rfl⟩ := ih hu' hv' hrest
      exact ⟨rfl, rfl⟩

lemma encloses_mono (h : ∀ c, bad' c → bad c) (hu : encloses bad depth u) :
    encloses bad' depth u := by
  induction u generalizing depth with
  | nil => exact hu
  | cons c u ih =>
    rw [encloses] at hu ⊢
    split_ifs at hu ⊢
    · exact ih hu
    · rw [Bool.and_eq_true] at hu ⊢
      exact hu.imp_right ih
    · rw [Bool.and_eq_true, Bool.or_eq_true, Bool.not_eq_true'] at hu ⊢
      refine hu.imp (Or.imp_right fun hbad => ?_) ih
      by_contra hbad'
      rw [h c (by simpa using hbad')] at hbad
      cases hbad

lemma encloses_append (hu : encloses bad depth u) (hv : encloses bad 0 v) :
    encloses bad depth (u ++ v) := by
  induction u generalizing depth with
  | nil =>
    obtain rfl : depth = 0 := by simpa [encloses] using hu
    exact hv
  | cons c u ih =>
    rw [List.cons_append, encloses]
    rw [encloses] at hu
    split_ifs at hu ⊢
    · exact ih hu
    · rw [Bool.and_eq_true] at hu ⊢
      exact hu.imp_right ih
    · rw [Bool.and_eq_true] at hu ⊢
      exact hu.imp_right ih

lemma encloses_of_plain (h : ∀ c ∈ u, isBracket c = false ∧ bad c = false) : encloses bad 0 u := by
  induction u with
  | nil => rfl
  | cons c u ih =>
    obtain ⟨⟨hc, hbad⟩, hu⟩ := List.forall_mem_cons.1 h
    rw [encloses_cons_of_not_isBracket hc, hbad, ih hu]
    rfl

/-- A bracket that closes what is open lets any character stand in front of it. -/
lemma encloses_concat (hu : encloses bad depth u) (hc : c = ')' ∨ c = '>') :
    encloses bad' (depth + 1) (u ++ [c]) := by
  induction u generalizing depth with
  | nil =>
    obtain rfl : depth = 0 := by simpa [encloses] using hu
    rcases hc with rfl | rfl <;> rfl
  | cons d u ih =>
    rw [List.cons_append, encloses]
    rw [encloses] at hu
    split_ifs at hu ⊢ with h₁ h₂
    · exact ih hu
    · rw [Bool.and_eq_true, decide_eq_true_eq] at hu
      obtain ⟨k, rfl⟩ := Nat.exists_eq_succ_of_ne_zero hu.1
      simpa using ih hu.2
    · simp [ih (Bool.and_eq_true_iff.1 hu).2]

variable (bad') in
/-- Between brackets any character may stand. -/
lemma encloses_bracketed {d : Char} (hu : encloses bad 0 u) (hc : c = '(' ∨ c = '<')
    (hd : d = ')' ∨ d = '>') : encloses bad' 0 (c :: (u ++ [d])) := by
  rw [encloses, if_pos hc]
  exact encloses_concat hu hd

end

/-! ### The brackets of derived texts -/

lemma IsName.isNameChar {n : Text} (h : IsName n) : ∀ c ∈ n, isNameChar c := by
  obtain ⟨c, cs, rfl, hc, hcs, -⟩ := h
  exact List.forall_mem_cons.2 ⟨isNameChar_of_isNameStart hc, hcs⟩

/-- The characters that end a row: signs that join types, and white space. -/
def isJoint (c : Char) : Bool := c ∈ ['|', '&', ','] || isWhiteSpace c

/-- Names have no brackets and no joints. -/
lemma plain_of_isNameChar {c : Char} (h : isNameChar c) :
    isBracket c = false ∧ isJoint c = false := by
  have hspace := isWhiteSpace_of_isNameChar h
  have hne : ∀ d, isNameChar d = false → c ≠ d := by
    rintro d hd rfl
    rw [h] at hd
    cases hd
  simp [isBracket, isJoint, hspace, hne '(' rfl, hne '<' rfl, hne ')' rfl, hne '>' rfl, hne '|' rfl,
    hne '&' rfl, hne ',' rfl]

section

variable {bad : Char → Bool} {inside : Bool} {c : Char} {w : Text} {t : TypeExpr}
  {ts : List TypeExpr}
  {takesRows : Text → Prop} {separator : Text → Prop}
  {atom part next row union : Text → TypeExpr → Prop}

/-- The brackets pair in all texts of a form. -/
def Pairs (bad : Char → Bool) (form : Text → TypeExpr → Prop) : Prop :=
  ∀ ⦃w t⦄, form w t → encloses bad 0 w

lemma isBracket_of_isWhiteSpace (h : isWhiteSpace c) : isBracket c = false := by
  by_contra hc
  simp only [isBracket, List.mem_cons, List.not_mem_nil, or_false, Bool.not_eq_false,
    decide_eq_true_eq] at hc
  rcases hc with rfl | rfl | rfl | rfl <;> cases h

lemma IsSpace.encloses {l : Text} (hl : IsSpace inside l)
    (hspace : inside → ∀ d, isWhiteSpace d → bad d = false) : encloses bad 0 l :=
  encloses_of_plain fun d hd =>
    ⟨isBracket_of_isWhiteSpace (hl d hd).2, hspace (hl d hd).1 d (hl d hd).2⟩

lemma IsSeparator.encloses {p : Text} (hp : IsSeparator inside c p) (hc : isBracket c = false)
    (hbad : bad c = false) (hspace : inside → ∀ d, isWhiteSpace d → bad d = false) :
    encloses bad 0 p := by
  obtain ⟨l, r, rfl, hl, hr⟩ := hp
  refine encloses_append (hl.encloses hspace) ?_
  rw [encloses_cons_of_not_isBracket hc, hbad, hr.encloses hspace]
  rfl

lemma IsMore.encloses (hsep : ∀ p, separator p → encloses bad 0 p) (hnext : Pairs bad next)
    (h : IsMore separator next w ts) : encloses bad 0 w := by
  induction h with
  | nil => rfl
  | cons hs hw hv ih => exact encloses_append (hsep _ hs) (encloses_append (hnext hw) ih)

lemma IsList.encloses (hsep : ∀ p, separator p → encloses bad 0 p) (hpart : Pairs bad part)
    (hnext : Pairs bad next) (h : IsList separator part next w ts) : encloses bad 0 w := by
  obtain ⟨u, t, v, us, rfl, -, hu, hv⟩ := h
  exact encloses_append (hpart hu) (hv.encloses hsep hnext)

lemma encloses_brackets (n : Nat) : encloses isJoint 0 (brackets n) := by
  induction n with
  | zero => rfl
  | succ n ih => exact ih

lemma pairs_isRow (hatom : Pairs isJoint atom) : Pairs isJoint (IsRow takesRows atom) := by
  rintro w t ⟨v, u, n, rfl, -, hv, -⟩
  exact encloses_append (hatom hv) (encloses_brackets n)

lemma pairs_isIntersection (hrow : Pairs isJoint row) (hle : ∀ d, bad d → isJoint d)
    (hand : bad '&' = false) (hspace : inside → ∀ d, isWhiteSpace d → bad d = false) :
    Pairs bad (IsIntersection inside row) := by
  rintro w t ⟨ts, -, hlist⟩
  exact hlist.encloses (fun p hp => hp.encloses rfl hand hspace)
    (fun w t h => encloses_mono hle (hrow h)) fun w t h => encloses_mono hle (hrow h.1)

lemma pairs_isUnion (hrow : Pairs isJoint row) (hle : ∀ d, bad d → isJoint d)
    (hand : bad '&' = false) (hor : bad '|' = false)
    (hspace : inside → ∀ d, isWhiteSpace d → bad d = false) : Pairs bad (IsUnion inside row) := by
  rintro w t ⟨ts, -, hlist⟩
  exact hlist.encloses (fun p hp => hp.encloses rfl hor hspace)
    (pairs_isIntersection hrow hle hand hspace) (pairs_isIntersection hrow hle hand hspace)

/-- Brackets pair between brackets, whatever else stands there. -/
lemma pairs_opens (hrow : Pairs isJoint row) (hunion : Pairs (fun _ => false) union) :
    Pairs isJoint (Opens row union) := by
  have hspace : ∀ {l : Text}, IsSpace true l → encloses (fun _ => false) 0 l :=
    fun hl => hl.encloses fun _ _ _ => rfl
  intro w t h
  cases h with
  | @nullable w t hw =>
    rw [encloses_cons_of_not_isBracket rfl]
    exact hrow hw
  | @group l w r t hl hw hr =>
    have hinner := encloses_append (hspace hl) (encloses_append (hunion hw) (hspace hr))
    have h := encloses_bracketed isJoint hinner (.inl rfl) (.inl rfl)
    simpa using h
  | @generic n l w r ts hn hl hw hr =>
    have hlist : encloses (fun _ => false) 0 w :=
      hw.encloses (fun p hp => hp.encloses rfl rfl fun _ _ _ => rfl) hunion hunion
    have hinner := encloses_append (hspace hl) (encloses_append hlist (hspace hr))
    have h := encloses_bracketed isJoint hinner (.inr rfl) (.inr rfl)
    refine encloses_append (encloses_of_plain fun c hc => ?_) (by simpa using h)
    exact plain_of_isNameChar (hn.isNameChar c hc)

lemma pairs_isAtom (levels : Nat) (inside : Bool) :
    Pairs isJoint (IsAtom takesRows levels inside) := by
  induction levels generalizing inside with
  | zero =>
    rintro w t (⟨hn, -⟩ | h)
    · exact encloses_of_plain fun c hc => plain_of_isNameChar (hn.isNameChar c hc)
    · exact h.elim
  | succ levels ih =>
    rintro w t (⟨hn, -⟩ | h)
    · exact encloses_of_plain fun c hc => plain_of_isNameChar (hn.isNameChar c hc)
    · exact pairs_opens (pairs_isRow (ih inside))
        (pairs_isUnion (pairs_isRow (ih true)) nofun rfl rfl fun _ _ _ => rfl) h

end

/-! ### Rows -/

lemma length_brackets (n : Nat) : (brackets n).length = 2 * n := by
  induction n with
  | zero => rfl
  | succ n ih =>
    rw [brackets, List.length_cons, List.length_cons, ih]
    omega

/-- A text that is shorter has not so many brackets in it. -/
lemma not_brackets_infix {n : Nat} {s : Text} (h : s.length < 2 * n) : ¬ brackets n <:+: s := by
  intro hwithin
  have hle := hwithin.length_le
  rw [length_brackets] at hle
  omega

lemma arrays_succ (n : Nat) (t : TypeExpr) : arrays (n + 1) t = .array (arrays n t) := by
  induction n generalizing t with
  | zero => rfl
  | succ n ih => rw [arrays, ih, arrays]

/-! ### The brackets of written types -/

lemma encloses_parenthesized {bad bad' : Char → Bool} {u : Text} (h : encloses bad 0 u) :
    encloses bad' 0 (parenthesizedIf true u) :=
  encloses_bracketed _ h (.inl rfl) (.inl rfl)

lemma encloses_intercalate {bad : Char → Bool} {sep : Text} {parts : List Text}
    (hsep : encloses bad 0 sep) (hparts : ∀ p ∈ parts, encloses bad 0 p) :
    encloses bad 0 (sep.intercalate parts) :=
  intercalate_induction (P := (encloses bad 0 ·)) rfl
    (fun _ _ hs ht => encloses_append (encloses_append hs hsep) ht) hparts

/-- Outside of brackets the text of a type has no joints but those of its members. -/
def EnclosesJoints (t : TypeExpr) : Prop :=
  ∀ bad : Char → Bool, (∀ c, bad c → isJoint c) → (t.isCompound → bad '&' = false) →
    (t.isUnion → bad '|' = false) → encloses bad 0 t.text

namespace EnclosesJoints

variable {t : TypeExpr} (h : EnclosesJoints t)

include h

lemma pairs : encloses (fun _ => false) 0 t.text := h _ nofun (fun _ => rfl) fun _ => rfl

lemma heldText : encloses isJoint 0 t.heldText := by
  rw [TypeExpr.heldText]
  cases hc : t.isCompound with
  | true => exact encloses_parenthesized h.pairs
  | false =>
    refine h isJoint (fun _ h => h) (by simp [hc]) fun hu => ?_
    cases t <;> cases hu
    cases hc

lemma memberText {bad : Char → Bool} (hle : ∀ c, bad c → isJoint c) (hand : bad '&' = false) :
    encloses bad 0 t.memberText := by
  rw [TypeExpr.memberText]
  cases hu : t.isUnion with
  | true => exact encloses_parenthesized h.pairs
  | false => exact h bad hle (fun _ => hand) (by simp [hu])

end EnclosesJoints

lemma WellNamed.enclosesJoints {t : TypeExpr} (h : WellNamed t) : EnclosesJoints t := by
  induction h with
  | name hne hn =>
    intro bad hle _ _
    exact encloses_mono hle (encloses_of_plain fun c hc => plain_of_isNameChar (hn c hc))
  | @nullable t _ ih =>
    intro bad hle _ _
    refine encloses_mono hle ?_
    rw [text, encloses_cons_of_not_isBracket rfl]
    exact ih.heldText
  | @array t _ ih =>
    intro bad hle _ _
    refine encloses_mono hle ?_
    rw [text]
    exact encloses_append ih.heldText rfl
  | @union ts _ _ ih =>
    intro bad hle hand hor
    rw [text, texts_eq_map]
    refine encloses_intercalate ?_ (List.forall_mem_map.2 fun t ht => ?_)
    · rw [encloses_cons_of_not_isBracket rfl, hor rfl]
      rfl
    · exact ih t ht bad hle (fun _ => hand rfl) fun _ => hor rfl
  | @intersection ts _ _ ih =>
    intro bad hle hand _
    rw [text, memberTexts_eq]
    refine encloses_intercalate ?_ (List.forall_mem_map.2 fun t ht => ?_)
    · rw [encloses_cons_of_not_isBracket rfl, hand rfl]
      rfl
    · exact (ih t ht).memberText hle (hand rfl)
  | @generic n ts hne hn _ _ ih =>
    intro bad hle _ _
    refine encloses_mono hle ?_
    have hparams : TypeExpr.encloses (fun _ => false) 0 ([',', ' '].intercalate (texts ts)) := by
      rw [texts_eq_map]
      exact encloses_intercalate rfl (List.forall_mem_map.2 fun t ht => (ih t ht).pairs)
    rw [text, List.append_assoc, List.cons_append]
    exact encloses_append (encloses_of_plain fun c hc => plain_of_isNameChar (hn c hc))
      (encloses_bracketed _ hparams (.inr rfl) (.inr rfl))

end DocComment.TypeExpr
