import DocComment.Proofs.TypeExpr.Plain
import DocComment.Proofs.TypeExpr.Written

/-!
# Types from texts without parentheses

A type that is derived from a text without parentheses is derived from its own text too
(`derives_text_of_derives`). The two texts differ in white space only: without parentheses there are
no members to take apart and no rows of nullable types, which are what is not written back.

The forms depend on the character that a text starts with, since `$` behind `&` marks a reference,
and `[]` behind `?` belong to the type after it. So it is part of what is carried through the forms
that both texts start alike (`Respelled`).
-/

namespace DocComment.TypeExpr

open Text

/-- What is written for a type of the form is of that form too and starts with the same character,
if the type stands in a text without parentheses. -/
def Respelled (form : Text → TypeExpr → Prop) (f : TypeExpr → Text) : Prop :=
  ∀ ⦃w t⦄, form w t → '(' ∉ w → form (f t) t ∧ ∃ c ∈ w.head?, c ∈ (f t).head?

section

variable {inside : Bool} {w : Text} {t : TypeExpr} {ts : List TypeExpr} {separator : Text → Prop}
  {part next row atom union : Text → TypeExpr → Prop} {f : TypeExpr → Text} {sep : Text}

/-! ### Lists -/

lemma IsMore.respelled (hsep : separator sep) (hnext : Respelled next f)
    (h : IsMore separator next w ts) (hw : '(' ∉ w) :
    IsMore separator next ((ts.map f).flatMap (sep ++ ·)) ts := by
  induction h with
  | nil => exact .nil
  | @cons s w v t ts hs hpart hv ih =>
    simp only [List.mem_append, not_or] at hw
    rw [List.map_cons, List.flatMap_cons, List.append_assoc]
    exact .cons hsep (hnext hpart hw.2.1).1 (ih hw.2.2)

lemma IsList.respelled (hsep : separator sep) (hpart : Respelled part f) (hnext : Respelled next f)
    (h : IsList separator part next w ts) (hw : '(' ∉ w) :
    IsList separator part next (sep.intercalate (ts.map f)) ts ∧
      ∃ c ∈ w.head?, c ∈ (sep.intercalate (ts.map f)).head? := by
  obtain ⟨u, t, v, us, rfl, rfl, hu, hv⟩ := h
  simp only [List.mem_append, not_or] at hw
  obtain ⟨ht, c, hc, hc'⟩ := hpart hu hw.1
  rw [List.map_cons, intercalate_cons]
  refine ⟨⟨f t, t, _, us, rfl, rfl, ht, hv.respelled hsep hnext hw.2⟩, c, ?_, ?_⟩
  · exact List.mem_head?_append_of_mem_head? hc
  · exact List.mem_head?_append_of_mem_head? hc'

/-! ### Rows -/

/-- A type that is held without a parenthesis in front is held as it is written. -/
lemma eq_heldText_of_head? (hw : '(' ∉ w) (h : ∃ c ∈ w.head?, c ∈ t.heldText.head?) :
    t.memberText = t.heldText ∧ t.text = t.heldText := by
  obtain ⟨c, hc, hc'⟩ := h
  cases t with
  | union | intersection =>
    obtain rfl : '(' = c := Option.some.inj hc'
    exact absurd (List.mem_of_mem_head? hc) hw
  | _ => exact ⟨rfl, rfl⟩

lemma respelled_isRow (hatom : Respelled atom heldText) :
    Respelled (IsRow IsPrimary atom) heldText := by
  rintro w t ⟨v, u, n, rfl, rfl, hv, hle, hn⟩ hw
  obtain ⟨hu, c, hc, hc'⟩ := hatom hv fun h => hw (List.mem_append_left _ h)
  have hprimary : IsPrimary v → IsPrimary u.heldText := by
    rw [IsPrimary, IsPrimary, Option.mem_def.1 hc, Option.mem_def.1 hc']
    exact id
  rw [heldText_arrays]
  refine ⟨⟨u.heldText, u, n, rfl, rfl, hu, hle, hn.imp_right hprimary⟩, c, ?_, ?_⟩
  · exact List.mem_head?_append_of_mem_head? hc
  · exact List.mem_head?_append_of_mem_head? hc'

/-! ### Intersections and unions -/

/-- What may follow a `&` may follow it as it is written too. -/
lemma Respelled.operand (hrow : Respelled row f) :
    Respelled (fun w t => row w t ∧ IsOperand w) f := by
  rintro w t ⟨h, hoperand⟩ hw
  obtain ⟨ht, c, hc, hc'⟩ := hrow h hw
  refine ⟨⟨ht, ?_⟩, c, hc, hc'⟩
  rwa [IsOperand, Option.mem_def.1 hc', ← Option.mem_def.1 hc]

lemma respelled_isIntersection (hrow : Respelled row heldText) :
    Respelled (IsIntersection inside row) text := by
  have hmember : Respelled row memberText := by
    intro w t h hw
    have hheld := hrow h hw
    rwa [(eq_heldText_of_head? hw hheld.2).1]
  have hsep : IsSeparator inside '&' ['&'] := isSeparator_singleton inside '&'
  rintro w t ⟨ts, rfl, hlist⟩ hw
  match ts with
  | [] => exact absurd rfl hlist.ne_nil
  | [t] =>
    obtain ⟨hlist', hc⟩ := hlist.respelled hsep hrow hrow.operand hw
    rw [List.map_singleton, List.intercalate_singleton] at hlist' hc
    rw [← (eq_heldText_of_head? hw hc).2] at hlist' hc
    exact ⟨⟨[t], rfl, hlist'⟩, hc⟩
  | t :: u :: us =>
    obtain ⟨hlist', hc⟩ := hlist.respelled hsep hmember hmember.operand hw
    rw [← memberTexts_eq] at hlist' hc
    exact ⟨⟨_, rfl, hlist'⟩, hc⟩

lemma respelled_isUnion (hrow : Respelled row heldText) : Respelled (IsUnion inside row) text := by
  rintro w t ⟨ts, rfl, hlist⟩ hw
  have hpart : Respelled (IsIntersection inside row) text := respelled_isIntersection hrow
  obtain ⟨hlist', hc⟩ := hlist.respelled (isSeparator_singleton inside '|') hpart hpart hw
  match ts with
  | [] => exact absurd rfl hlist.ne_nil
  | [t] =>
    rw [List.map_singleton, List.intercalate_singleton] at hlist' hc
    exact ⟨⟨[t], rfl, hlist'⟩, hc⟩
  | t :: u :: us =>
    rw [← texts_eq_map] at hlist' hc
    exact ⟨⟨_, rfl, hlist'⟩, hc⟩

/-! ### Atoms -/

lemma respelled_opens (hrow : Respelled row heldText) (hunion : Respelled union text) :
    Respelled (Opens row union) heldText := by
  have hspace : IsSpace true [] := by simp [IsSpace]
  intro w t h hw
  cases h with
  | nullable h =>
    have hheld := hrow h fun hmem => hw (List.mem_cons_of_mem _ hmem)
    exact ⟨.nullable hheld.1, '?', rfl, rfl⟩
  | group => exact absurd List.mem_cons_self hw
  | @generic n l w r ts hn hl hlist hr =>
    have hsep : IsSeparator true ',' [',', ' '] :=
      ⟨[], [' '], rfl, hspace, List.forall_mem_singleton.2 ⟨rfl, rfl⟩⟩
    have hparams := (hlist.respelled hsep hunion hunion fun h => hw (by simp [h])).1
    obtain ⟨c, hc, -⟩ := hn.starts
    show Opens row union (n ++ '<' :: [',', ' '].intercalate (texts ts) ++ ['>']) _ ∧
      ∃ c ∈ _, c ∈ (n ++ '<' :: [',', ' '].intercalate (texts ts) ++ ['>']).head?
    rw [texts_eq_map, List.append_assoc]
    refine ⟨.generic hn hspace hparams hspace, c, ?_, ?_⟩
    · exact List.mem_head?_append_of_mem_head? hc
    · exact List.mem_head?_append_of_mem_head? hc

lemma respelled_isAtom (levels : Nat) (inside : Bool) :
    Respelled (IsAtom IsPrimary levels inside) heldText := by
  have hname : ∀ {levels inside w}, IsName w → IsAtom IsPrimary levels inside w (.name w) ∧
      ∃ c ∈ w.head?, c ∈ w.head? := fun hn =>
    have ⟨c, hc, _⟩ := hn.starts
    ⟨.of_name hn, c, hc, hc⟩
  induction levels generalizing inside with
  | zero =>
    rintro w t (⟨hn, rfl⟩ | h) hw
    · exact hname hn
    · exact h.elim
  | succ levels ih =>
    rintro w t (⟨hn, rfl⟩ | h) hw
    · exact hname hn
    · obtain ⟨hopens, hc⟩ := respelled_opens (respelled_isRow (ih inside))
        (respelled_isUnion (respelled_isRow (ih true))) h hw
      exact ⟨.of_opens hopens, hc⟩

end

/-- A type that is derived from a text without parentheses is derived from its own text. -/
theorem derives_text_of_derives {levels : Nat} {w : Text} {t : TypeExpr}
    (h : Derives IsPrimary levels w t) (hw : '(' ∉ w) : Derives IsPrimary levels t.text t :=
  (respelled_isUnion (respelled_isRow (respelled_isAtom levels false)) h hw).1

end DocComment.TypeExpr
