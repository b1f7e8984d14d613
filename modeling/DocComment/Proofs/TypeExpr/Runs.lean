import DocComment.Proofs.TypeExpr.Levels

/-!
# The names of a type and its text

Between two names of a type there is always a sign or white space. So the names that a type refers
to are the maximal runs of name characters in its text, in the same order (`names_of_derives`).
-/

namespace DocComment.TypeExpr

open Text

/-! ### Runs -/

/-- The maximal runs of name characters of a text, in order. -/
def nameRuns (s : Text) : List Text := (s.splitOnP fun c => !isNameChar c).filter (· ≠ [])

@[simp] lemma nameRuns_nil : nameRuns [] = [] := rfl

section

variable {s t : Text} {c : Char}

/-- Every run ends at a character that names have not. -/
lemma nameRuns_append_cons (s t : Text) (hc : isNameChar c = false) :
    nameRuns (s ++ c :: t) = nameRuns s ++ nameRuns t := by
  rw [nameRuns, List.splitOnP_append_cons s t (by simp [hc]), List.filter_append]
  rfl

lemma nameRuns_cons (t : Text) (hc : isNameChar c = false) : nameRuns (c :: t) = nameRuns t :=
  nameRuns_append_cons [] t hc

/-- Text that starts with no name character goes on with no name. -/
lemma nameRuns_append (s : Text) (ht : ∀ c ∈ t.head?, isNameChar c = false) :
    nameRuns (s ++ t) = nameRuns s ++ nameRuns t := by
  cases t with
  | nil => simp
  | cons c t =>
    have hc := ht c rfl
    rw [nameRuns_append_cons s t hc, nameRuns_cons t hc]

/-- Text without name characters has no names. -/
lemma nameRuns_append_of_forall (hs : ∀ c ∈ s, isNameChar c = false) (t : Text) :
    nameRuns (s ++ t) = nameRuns t := by
  induction s with
  | nil => rfl
  | cons c s ih =>
    rw [List.forall_mem_cons] at hs
    rw [List.cons_append, nameRuns_cons _ hs.1, ih hs.2]

lemma nameRuns_of_forall (hs : ∀ c ∈ s, isNameChar c = false) : nameRuns s = [] := by
  simpa using nameRuns_append_of_forall hs []

lemma nameRuns_of_isName (h : IsName s) : nameRuns s = [s] := by
  obtain ⟨c, cs, rfl, hc, hcs, -⟩ := h
  have hall : ∀ d ∈ c :: cs, (!isNameChar d) = false := by
    simpa using ⟨isNameChar_of_isNameStart hc, hcs⟩
  rw [nameRuns, List.splitOnP_eq_singleton hall]
  rfl

lemma isNameChar_of_isSpace {inside : Bool} (h : IsSpace inside s) :
    ∀ c ∈ s, isNameChar c = false := by
  intro c hc
  by_contra hname
  have hspace := (h c hc).2
  rw [isWhiteSpace_of_isNameChar (by simpa using hname)] at hspace
  cases hspace

/-- A separator is not empty and has no name in it. -/
lemma isNameChar_of_isSeparator {inside : Bool} (hc : isNameChar c = false)
    (h : IsSeparator inside c s) : s ≠ [] ∧ ∀ d ∈ s, isNameChar d = false := by
  obtain ⟨l, r, rfl, hl, hr⟩ := h
  refine ⟨by simp, fun d hd => ?_⟩
  simp only [List.mem_append, List.mem_cons] at hd
  rcases hd with hd | rfl | hd
  · exact isNameChar_of_isSpace hl d hd
  · exact hc
  · exact isNameChar_of_isSpace hr d hd

lemma isNameChar_of_mem_brackets (n : Nat) : ∀ c ∈ brackets n, isNameChar c = false := by
  induction n with
  | zero => simp [brackets]
  | succ n ih =>
    simp only [brackets, List.forall_mem_cons]
    exact ⟨rfl, rfl, ih⟩

end

/-! ### Names -/

lemma names_collapse {wrap : List TypeExpr → TypeExpr} (hwrap : ∀ ts, (wrap ts).names = namesOf ts)
    (ts : List TypeExpr) : (collapse wrap ts).names = namesOf ts := by
  unfold collapse
  split
  · simp [namesOf]
  · exact hwrap _

/-- The types of a form refer to the names in their texts. -/
def Refers (form : Text → TypeExpr → Prop) : Prop := ∀ ⦃w t⦄, form w t → t.names = nameRuns w

section

variable {takesRows : Text → Prop} {inside : Bool} {w : Text} {t : TypeExpr} {ts : List TypeExpr}
  {part next row union atom : Text → TypeExpr → Prop} {separator : Text → Prop}

section

variable (hseparator : ∀ {s}, separator s → s ≠ [] ∧ ∀ c ∈ s, isNameChar c = false)

include hseparator

lemma namesOf_more (hnext : Refers next) (h : IsMore separator next w ts) :
    namesOf ts = nameRuns w ∧ ∀ c ∈ w.head?, isNameChar c = false := by
  induction h with
  | nil => simp [namesOf]
  | @cons s w v t ts hs hw hv ih =>
    obtain ⟨hne, hall⟩ := hseparator hs
    constructor
    · rw [namesOf, hnext hw, ih.1, nameRuns_append_of_forall hall, nameRuns_append w ih.2]
    · rw [List.head?_append_of_ne_nil _ hne]
      exact fun c hc => hall c (List.mem_of_mem_head? hc)

lemma namesOf_list (hpart : Refers part) (hnext : Refers next)
    (h : IsList separator part next w ts) : namesOf ts = nameRuns w := by
  obtain ⟨u, t, v, us, rfl, rfl, hu, hv⟩ := h
  obtain ⟨hnames, hhead⟩ := namesOf_more hseparator hnext hv
  rw [namesOf, hpart hu, hnames, nameRuns_append u hhead]

end

lemma refers_row (hatom : Refers atom) : Refers (IsRow takesRows atom) := by
  rintro w t ⟨v, u, n, rfl, rfl, hv, -⟩
  have hbrackets := isNameChar_of_mem_brackets n
  rw [names_arrays, hatom hv, nameRuns_append v fun c hc => hbrackets c (List.mem_of_mem_head? hc),
    nameRuns_of_forall hbrackets, List.append_nil]

lemma refers_intersection (hrow : Refers row) : Refers (IsIntersection inside row) := by
  rintro w t ⟨ts, rfl, hlist⟩
  rw [names_collapse (fun _ => by rw [names])]
  exact namesOf_list (isNameChar_of_isSeparator rfl) hrow (fun w t h => hrow h.1) hlist

lemma refers_union (hrow : Refers row) : Refers (IsUnion inside row) := by
  rintro w t ⟨ts, rfl, hlist⟩
  rw [names_collapse (fun _ => by rw [names])]
  exact namesOf_list (isNameChar_of_isSeparator rfl) (refers_intersection hrow)
    (refers_intersection hrow) hlist

/-- What stands between brackets has white space around it, which has no names. -/
lemma nameRuns_enclosed {l r : Text} {c : Char} (hl : IsSpace true l) (hr : IsSpace true r)
    (hc : isNameChar c = false) (w : Text) : nameRuns (l ++ (w ++ (r ++ [c]))) = nameRuns w := by
  have hclose : ∀ d ∈ r ++ [c], isNameChar d = false := by
    intro d hd
    rcases List.mem_append.1 hd with hd | hd
    · exact isNameChar_of_isSpace hr d hd
    · exact List.mem_singleton.1 hd ▸ hc
  rw [nameRuns_append_of_forall (isNameChar_of_isSpace hl),
    nameRuns_append w fun d hd => hclose d (List.mem_of_mem_head? hd), nameRuns_of_forall hclose,
    List.append_nil]

lemma refers_opens (hrow : Refers row) (hunion : Refers union) : Refers (Opens row union) := by
  intro w t h
  cases h with
  | nullable hw => rw [names, hrow hw, nameRuns_cons _ rfl]
  | group hl hw hr => rw [hunion hw, nameRuns_cons _ rfl, nameRuns_enclosed hl hr rfl]
  | generic hn hl hw hr =>
    rw [names, namesOf_list (isNameChar_of_isSeparator rfl) hunion hunion hw,
      nameRuns_append_cons _ _ rfl, nameRuns_of_isName hn, nameRuns_enclosed hl hr rfl]
    rfl

lemma refers_atom (levels : Nat) (inside : Bool) : Refers (IsAtom takesRows levels inside) := by
  induction levels generalizing inside with
  | zero =>
    rintro w t (⟨hn, rfl⟩ | h)
    · rw [names, nameRuns_of_isName hn]
    · exact h.elim
  | succ levels ih =>
    rintro w t (⟨hn, rfl⟩ | h)
    · rw [names, nameRuns_of_isName hn]
    · exact refers_opens (refers_row (ih inside)) (refers_union (refers_row (ih true))) h

/-- A type that the grammar derives refers to the names of its text, in order. -/
lemma names_of_derives {levels : Nat} (h : Derives takesRows levels w t) : t.names = nameRuns w :=
  refers_union (refers_row (refers_atom levels false)) h

end

end DocComment.TypeExpr
