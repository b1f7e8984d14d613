import Mathlib.Data.List.Basic
import Mathlib.Tactic.Common
import DocComment.Text.Basic

/-!
# Joined texts

All parts of a joined text but the first have the separator in front of them (`intercalate_cons`),
and all but the last have it behind them.
-/

namespace DocComment.Text

variable {sep : Text}

lemma intercalate_cons (sep p : Text) (ps : List Text) :
    sep.intercalate (p :: ps) = p ++ ps.flatMap (sep ++ ·) := by
  induction ps generalizing p with
  | nil => rw [List.intercalate_singleton, List.flatMap_nil, List.append_nil]
  | cons q ps ih =>
    rw [List.intercalate_cons_cons, ih, List.append_assoc, ← List.append_assoc sep,
      List.flatMap_cons]

/-- A part of a joined text with the separators around it. -/
lemma intercalate_append_cons (sep : Text) (before : List Text) (part : Text) (after : List Text) :
    sep.intercalate (before ++ part :: after) =
      before.flatMap (· ++ sep) ++ part ++ after.flatMap (sep ++ ·) := by
  induction before with
  | nil => exact intercalate_cons sep part after
  | cons p before ih =>
    rw [List.cons_append, List.intercalate_cons_of_ne_nil (by simp), ih]
    simp

lemma intercalate_append {xs ys : List Text} (hx : xs ≠ []) (hy : ys ≠ []) :
    sep.intercalate (xs ++ ys) = sep.intercalate xs ++ sep ++ sep.intercalate ys := by
  obtain ⟨x, xs, rfl⟩ := List.exists_cons_of_ne_nil hx
  obtain ⟨y, ys, rfl⟩ := List.exists_cons_of_ne_nil hy
  rw [List.cons_append, intercalate_cons, intercalate_cons, intercalate_cons, List.flatMap_append,
    List.flatMap_cons]
  simp only [List.append_assoc]

/-- What holds of all parts holds of the joined text, if putting a separator in between keeps it. -/
lemma intercalate_induction {P : Text → Prop} {parts : List Text} (hnil : P [])
    (happend : ∀ s t, P s → P t → P (s ++ sep ++ t)) (hparts : ∀ p ∈ parts, P p) :
    P (sep.intercalate parts) := by
  induction parts with
  | nil => exact hnil
  | cons p parts ih =>
    obtain ⟨hp, hrest⟩ := List.forall_mem_cons.1 hparts
    cases parts with
    | nil => rwa [List.intercalate_singleton]
    | cons q parts =>
      rw [List.intercalate_cons_cons]
      exact happend p _ hp (ih hrest)

/-- Of a joined text without the separators its parts are left. -/
lemma filter_intercalate {q : Char → Bool} (hsep : ∀ c ∈ sep, q c = false) (parts : List Text) :
    (sep.intercalate parts).filter q = parts.flatMap (·.filter q) := by
  have hnil : sep.filter q = [] := List.filter_eq_nil_iff.2 fun c hc => by simp [hsep c hc]
  cases parts with
  | nil => rfl
  | cons p ps =>
    rw [intercalate_cons, List.filter_append, List.filter_flatMap, List.flatMap_cons]
    simp only [List.filter_append, hnil, List.nil_append]

end DocComment.Text
