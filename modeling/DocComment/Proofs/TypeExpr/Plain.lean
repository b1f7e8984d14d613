import DocComment.Proofs.TypeExpr.Brackets

/-!
# Types without parentheses

A type that is derived from a text without parentheses is written with the characters of that text,
apart from white space (`stripped_of_derives`). So its text has no parentheses either.
-/

namespace DocComment.TypeExpr

open Text

/-- The text without white space. -/
def stripped (s : Text) : Text := s.filter (!isWhiteSpace ·)

@[simp] lemma stripped_nil : stripped [] = [] := rfl

@[simp] lemma stripped_append (s t : Text) : stripped (s ++ t) = stripped s ++ stripped t :=
  List.filter_append s t

lemma stripped_cons {c : Char} (hc : isWhiteSpace c = false) (s : Text) :
    stripped (c :: s) = c :: stripped s := by
  simp [stripped, hc]

lemma mem_stripped {c : Char} (hc : isWhiteSpace c = false) {s : Text} :
    c ∈ stripped s ↔ c ∈ s := by
  simp [stripped, hc]

/-- In texts of a form without parentheses stand the characters of what is written for the type. -/
def Spelled (form : Text → TypeExpr → Prop) (f : TypeExpr → Text) : Prop :=
  ∀ ⦃w t⦄, form w t → '(' ∉ w → stripped (f t) = stripped w

section

variable {inside : Bool} {w : Text} {t : TypeExpr} {ts : List TypeExpr}
  {part next row atom union : Text → TypeExpr → Prop} {f : TypeExpr → Text} {c : Char}

lemma IsSpace.stripped {l : Text} (h : IsSpace inside l) : stripped l = [] := by
  rw [TypeExpr.stripped, List.filter_eq_nil_iff]
  exact fun d hd => by simp [(h d hd).2]

lemma IsSeparator.stripped {p : Text} (hc : isWhiteSpace c = false) (h : IsSeparator inside c p) :
    stripped p = [c] := by
  obtain ⟨l, r, rfl, hl, hr⟩ := h
  rw [stripped_append, stripped_cons hc, hl.stripped, hr.stripped]
  rfl

lemma stripped_join {sp : Text} (hc : isWhiteSpace c = false) (hsp : stripped sp = [])
    (m : TypeExpr) (ms : List TypeExpr) : stripped ((c :: sp).intercalate ((m :: ms).map f)) =
      stripped (f m) ++ ms.flatMap fun n => c :: stripped (f n) := by
  induction ms generalizing m with
  | nil => simp
  | cons n ms ih =>
    rw [List.map_cons, List.map_cons, List.intercalate_cons_cons, ← List.map_cons, stripped_append,
      stripped_append, stripped_cons hc, hsp, ih]
    simp

lemma IsMore.stripped (hc : isWhiteSpace c = false) (hnext : Spelled next f)
    (h : IsMore (IsSeparator inside c) next w ts) (hw : '(' ∉ w) :
    (ts.flatMap fun t => c :: stripped (f t)) = stripped w := by
  induction h with
  | nil => rfl
  | @cons s w v t ts hs hpart hv ih =>
    simp only [List.mem_append, not_or] at hw
    rw [List.flatMap_cons, ih hw.2.2, stripped_append, stripped_append, hs.stripped hc,
      hnext hpart hw.2.1]
    simp

lemma IsList.stripped {sp : Text} (hc : isWhiteSpace c = false) (hsp : stripped sp = [])
    (hpart : Spelled part f) (hnext : Spelled next f)
    (h : IsList (IsSeparator inside c) part next w ts) (hw : '(' ∉ w) :
    stripped ((c :: sp).intercalate (ts.map f)) = stripped w := by
  obtain ⟨u, t, v, us, rfl, rfl, hu, hv⟩ := h
  simp only [List.mem_append, not_or] at hw
  rw [stripped_join hc hsp, stripped_append, hpart hu hw.1, hv.stripped hc hnext hw.2]

lemma heldText_arrays (n : Nat) (t : TypeExpr) :
    (arrays n t).heldText = t.heldText ++ brackets n := by
  induction n with
  | zero => exact (List.append_nil _).symm
  | succ n ih =>
    rw [arrays_succ, brackets_succ, ← List.append_assoc, ← ih]
    rfl

lemma spelled_isRow {takesRows : Text → Prop} (hatom : Spelled atom heldText) :
    Spelled (IsRow takesRows atom) heldText := by
  rintro w t ⟨v, u, n, rfl, rfl, hv, -⟩ hw
  rw [heldText_arrays, stripped_append, stripped_append,
    hatom hv fun h => hw (List.mem_append_left _ h)]

/-- A type that is held without parentheses is written without them. -/
lemma eq_heldText_of_stripped (h : stripped t.heldText = stripped w) (hw : '(' ∉ w) :
    t.memberText = t.heldText ∧ t.text = t.heldText := by
  have hcompound : t.isCompound = false := by
    by_contra hcompound
    rw [Bool.not_eq_false] at hcompound
    rw [heldText, hcompound] at h
    have hmem : '(' ∈ stripped w := by
      rw [← h]
      exact (mem_stripped rfl).2 List.mem_cons_self
    exact hw ((mem_stripped rfl).1 hmem)
  cases t with
  | union | intersection => cases hcompound
  | _ => exact ⟨rfl, rfl⟩

lemma spelled_isIntersection (hrow : Spelled row heldText) :
    Spelled (IsIntersection inside row) text := by
  have hmember : Spelled row memberText := by
    intro w t h hw
    rw [(eq_heldText_of_stripped (hrow h hw) hw).1, hrow h hw]
  rintro w t ⟨ts, rfl, hlist⟩ hw
  match ts with
  | [] => exact absurd rfl hlist.ne_nil
  | [t] =>
    have h := hlist.stripped rfl stripped_nil hrow (fun _ _ h => hrow h.1) hw
    rw [List.map_singleton, List.intercalate_singleton] at h
    show stripped t.text = _
    rw [(eq_heldText_of_stripped h hw).2, h]
  | t :: u :: us =>
    rw [← hlist.stripped rfl stripped_nil hmember (fun _ _ h => hmember h.1) hw, ← memberTexts_eq]
    rfl

lemma spelled_isUnion (hrow : Spelled row heldText) : Spelled (IsUnion inside row) text := by
  rintro w t ⟨ts, rfl, hlist⟩ hw
  have h := hlist.stripped rfl stripped_nil (spelled_isIntersection hrow)
    (spelled_isIntersection hrow) hw
  match ts with
  | [] => exact absurd rfl hlist.ne_nil
  | [t] => rwa [List.map_singleton, List.intercalate_singleton] at h
  | t :: u :: us =>
    rw [← h, ← texts_eq_map]
    rfl

lemma spelled_opens (hrow : Spelled row heldText) (hunion : Spelled union text) :
    Spelled (Opens row union) heldText := by
  intro w t h hw
  cases h with
  | @nullable w t hrow' =>
    show stripped ('?' :: t.heldText) = _
    rw [stripped_cons rfl, stripped_cons rfl,
      hrow hrow' fun h => hw (List.mem_cons_of_mem _ h)]
  | group => exact absurd List.mem_cons_self hw
  | @generic n l w r ts hn hl hlist hr =>
    have hw' : '(' ∉ w := fun h => hw (by simp [h])
    have hopen : isWhiteSpace '<' = false := rfl
    have hparams := hlist.stripped rfl (rfl : stripped [' '] = []) hunion hunion hw'
    show stripped (n ++ '<' :: [',', ' '].intercalate (texts ts) ++ ['>']) = _
    rw [texts_eq_map, List.append_assoc, List.cons_append, stripped_append, stripped_append,
      stripped_cons hopen, stripped_cons hopen, stripped_append, stripped_append, stripped_append,
      stripped_append, hl.stripped, hr.stripped, hparams]
    rfl

lemma spelled_isAtom {takesRows : Text → Prop} (levels : Nat) (inside : Bool) :
    Spelled (IsAtom takesRows levels inside) heldText := by
  induction levels generalizing inside with
  | zero =>
    rintro w t (⟨-, rfl⟩ | h) hw
    · rfl
    · exact h.elim
  | succ levels ih =>
    rintro w t (⟨-, rfl⟩ | h) hw
    · rfl
    · exact spelled_opens (spelled_isRow (ih inside)) (spelled_isUnion (spelled_isRow (ih true)))
        h hw

end

/-- A type that is derived from a text without parentheses is written with its characters. -/
theorem stripped_of_derives {takesRows : Text → Prop} {levels : Nat} {w : Text} {t : TypeExpr}
    (h : Derives takesRows levels w t) (hw : '(' ∉ w) : stripped t.text = stripped w :=
  spelled_isUnion (spelled_isRow (spelled_isAtom levels false)) h hw

end DocComment.TypeExpr
