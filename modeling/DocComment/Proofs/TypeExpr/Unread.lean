import DocComment.Proofs.TypeExpr.Reread

/-!
# Texts that no type is read from

A `&` with `$` behind it marks a reference, and more than `maxNesting` of `[]` in a row are not
read. So no text that the grammar derives has one of these in it (`Unread.not_infix_of_derives`).
Neither can start in one part of a derived text and end in the next, since the characters on both
sides of a seam are never those that follow each other there (`seam`).
-/

namespace DocComment.TypeExpr

open Text

/-- The texts that stand in no derived text. -/
inductive Unread : Text → Prop where
  | reference : Unread ['&', '$']
  | rows : Unread (brackets (maxNesting + 1))

/-- Whether characters follow each other in texts that stand in no derived text. -/
def seam (c d : Char) : Bool := (c = '&' && d = '$') || (c ∈ ['[', ']'] && d ∈ ['[', ']'])

/-- Whether a character is in none of these texts. -/
def isPlain (c : Char) : Bool := c ∉ ['&', '$', '[', ']']

lemma mem_brackets {n : Nat} {c : Char} (h : c ∈ brackets n) : c ∈ ['[', ']'] := by
  induction n with
  | zero => cases h
  | succ n ih =>
    rw [brackets, List.mem_cons, List.mem_cons] at h
    rcases h with rfl | rfl | h
    · exact List.mem_cons_self
    · exact List.mem_cons_of_mem _ List.mem_cons_self
    · exact ih h

lemma isPlain_of_isWhiteSpace {c : Char} (h : isWhiteSpace c) : isPlain c := by
  rw [isPlain, decide_eq_true_eq]
  intro hc
  simp only [List.mem_cons, List.not_mem_nil, or_false] at hc
  rcases hc with rfl | rfl | rfl | rfl <;> cases h

section

variable {c d : Char}

lemma seam_of_isPlain_left (hc : isPlain c) : seam c d = false := by
  simp only [isPlain, List.mem_cons, List.not_mem_nil, or_false, not_or, decide_eq_true_eq] at hc
  simp [seam, hc]

lemma seam_of_isPlain_right (hd : isPlain d) : seam c d = false := by
  simp only [isPlain, List.mem_cons, List.not_mem_nil, or_false, not_or, decide_eq_true_eq] at hd
  simp [seam, hd]

lemma seam_and (hd : d ≠ '$') : seam '&' d = false := by
  simp [seam, hd]

lemma seam_bracket (hc : c ∉ ['[', ']']) : seam c '[' = false := by
  simp [seam, hc]

end

namespace Unread

variable {p u v w : Text} (hp : Unread p)

include hp

/-- The characters on both sides of a seam follow each other. -/
lemma seam_eq_true {x y : Text} (h : p = x ++ y) (hx : x ≠ []) (hy : y ≠ []) :
    ∃ c ∈ x.getLast?, ∃ d ∈ y.head?, seam c d := by
  cases hp with
  | reference =>
    obtain ⟨c, x, rfl⟩ := List.exists_cons_of_ne_nil hx
    obtain ⟨d, y, rfl⟩ := List.exists_cons_of_ne_nil hy
    cases x with
    | nil =>
      obtain ⟨rfl, rfl, -⟩ : '&' = c ∧ '$' = d ∧ y = [] := by simpa using h
      exact ⟨'&', rfl, '$', rfl, rfl⟩
    | cons e x => simp at h
  | rows =>
    obtain ⟨x, c, rfl⟩ := (List.eq_nil_or_concat' x).resolve_left hx
    obtain ⟨d, y, rfl⟩ := List.exists_cons_of_ne_nil hy
    have hc : c ∈ ['[', ']'] := mem_brackets (n := maxNesting + 1) (by simp [h])
    have hd : d ∈ ['[', ']'] := mem_brackets (n := maxNesting + 1) (by simp [h])
    exact ⟨c, by simp, d, rfl, by simp [seam, hc, hd]⟩

lemma not_infix_append (hu : ¬ p <:+: u) (hv : ¬ p <:+: v)
    (hseam : ∀ c ∈ u.getLast?, ∀ d ∈ v.head?, seam c d = false) : ¬ p <:+: u ++ v := by
  intro h
  obtain h | h | ⟨x, y, hx, hy, hxy, ⟨l, rfl⟩, r, rfl⟩ := List.infix_append_iff_ne_nil.1 h
  · exact hu h
  · exact hv h
  · obtain ⟨c, hc, d, hd, hcd⟩ := hp.seam_eq_true hxy hx hy
    rw [hseam c (by rwa [List.getLast?_append_of_ne_nil _ hx]) d
      (by rwa [List.head?_append_of_ne_nil _ hy])] at hcd
    cases hcd

lemma not_infix_of_not_mem (hbracket : '[' ∉ w) (hand : '&' ∉ w) : ¬ p <:+: w := by
  rintro h
  cases hp with
  | reference => exact hand (h.subset List.mem_cons_self)
  | rows => exact hbracket (h.subset List.mem_cons_self)

lemma not_infix_of_isPlain (hw : ∀ c ∈ w, isPlain c) : ¬ p <:+: w :=
  hp.not_infix_of_not_mem (fun h => nomatch hw '[' h) fun h => nomatch hw '&' h

/-- Plain text may stand in front. -/
lemma not_infix_plain_append (hu : ∀ c ∈ u, isPlain c) (hv : ¬ p <:+: v) : ¬ p <:+: u ++ v :=
  hp.not_infix_append (hp.not_infix_of_isPlain hu) hv fun c hc _ _ =>
    seam_of_isPlain_left (hu c (List.mem_of_getLast? hc))

/-- Text that starts with plain text may stand behind. -/
lemma not_infix_append_plain (hu : ¬ p <:+: u) (hv : ¬ p <:+: v)
    (hhead : ∀ d ∈ v.head?, isPlain d) : ¬ p <:+: u ++ v :=
  hp.not_infix_append hu hv fun _ _ d hd => seam_of_isPlain_right (hhead d hd)

lemma not_infix_brackets {n : Nat} (hn : n ≤ maxNesting) : ¬ p <:+: brackets n := by
  intro h
  cases hp with
  | reference =>
    have hmem : '&' ∈ brackets n := h.subset List.mem_cons_self
    simpa using mem_brackets hmem
  | rows =>
    refine not_brackets_infix ?_ h
    rw [length_brackets]
    omega

lemma not_infix_singleton (c : Char) : ¬ p <:+: [c] := by
  intro h
  cases hp with
  | reference => exact absurd h.length_le (by simp)
  | rows => exact not_brackets_infix (by simp [maxNesting]) h

lemma not_infix_of_isName (hw : IsName w) : ¬ p <:+: w :=
  hp.not_infix_of_not_mem (fun h => nomatch hw.isNameChar '[' h)
    fun h => nomatch hw.isNameChar '&' h

end Unread

/-! ### Derived texts -/

section

variable {p : Text} (hp : Unread p) {inside : Bool} {c : Char} {v w : Text} {t : TypeExpr}
  {ts : List TypeExpr} {part next row union : Text → TypeExpr → Prop}

/-- In no text of a form stands `p`. -/
def Lacks (p : Text) (form : Text → TypeExpr → Prop) : Prop := ∀ ⦃w t⦄, form w t → ¬ p <:+: w

lemma IsSpace.isPlain {l : Text} (hl : IsSpace inside l) : ∀ d ∈ l, isPlain d := fun d hd =>
  isPlain_of_isWhiteSpace (hl d hd).2

/-- Plain text may stand in front of the text behind a seam. -/
lemma seam_head?_append {l z : Text} (hl : ∀ d ∈ l, isPlain d)
    (hz : ∀ d ∈ z.head?, seam c d = false) : ∀ d ∈ (l ++ z).head?, seam c d = false := by
  cases l with
  | nil => exact hz
  | cons e l =>
    intro d hd
    obtain rfl : e = d := Option.some.inj hd
    exact seam_of_isPlain_right (hl e List.mem_cons_self)

include hp

/-- A separator in front of text that does not make a reference of it. -/
lemma IsSeparator.not_infix {s z : Text} (hs : IsSeparator inside c s) (hz : ¬ p <:+: z)
    (hhead : ∀ d ∈ z.head?, seam c d = false) : ¬ p <:+: s ++ z := by
  obtain ⟨l, r, rfl, hl, hr⟩ := hs
  have hrest : ¬ p <:+: [c] ++ (r ++ z) := by
    apply hp.not_infix_append (hp.not_infix_singleton c) (hp.not_infix_plain_append hr.isPlain hz)
    intro e he
    obtain rfl : c = e := Option.some.inj he
    exact seam_head?_append hr.isPlain hhead
  have hall := hp.not_infix_plain_append hl.isPlain hrest
  simpa using hall

lemma IsMore.not_infix (hc : ∀ d, seam d c = false) (hnext : Lacks p next)
    (hhead : ∀ w t, next w t → w ≠ [] ∧ ∀ d ∈ w.head?, seam c d = false)
    (hu : ¬ p <:+: v) (h : IsMore (IsSeparator inside c) next w ts) : ¬ p <:+: v ++ w := by
  induction h generalizing v with
  | nil => rwa [List.append_nil]
  | @cons s w z t ts hs hw hz ih =>
    obtain ⟨hne, hstart⟩ := hhead w t hw
    have hrest : ¬ p <:+: s ++ (w ++ z) := by
      apply hs.not_infix hp (ih (hnext hw))
      rwa [List.head?_append_of_ne_nil _ hne]
    apply hp.not_infix_append hu hrest
    -- Behind the seam stands white space or the sign itself.
    obtain ⟨l, r, rfl, hl, -⟩ := hs
    intro e he d hd
    rw [List.append_assoc] at hd
    refine seam_head?_append hl.isPlain ?_ d hd
    intro d hd
    obtain rfl : c = d := Option.some.inj hd
    exact hc e

lemma IsList.not_infix (hc : ∀ d, seam d c = false) (hpart : Lacks p part) (hnext : Lacks p next)
    (hhead : ∀ w t, next w t → w ≠ [] ∧ ∀ d ∈ w.head?, seam c d = false)
    (h : IsList (IsSeparator inside c) part next w ts) : ¬ p <:+: w := by
  obtain ⟨u, t, v, us, rfl, rfl, hu, hv⟩ := h
  exact hv.not_infix hp hc hnext hhead (hpart hu)

lemma lacks_isIntersection (hrow : Lacks p row) (hstarts : ∀ {w t}, row w t → Starts w) :
    Lacks p (IsIntersection inside row) := by
  rintro w t ⟨ts, -, hlist⟩
  apply hlist.not_infix hp _ hrow (fun _ _ h => hrow h.1)
  · intro w t h
    refine ⟨(hstarts h.1).ne_nil, fun d hd => seam_and ?_⟩
    rintro rfl
    exact h.2.1 hd
  · intro d
    simp [seam]

/-- Signs but `&` may stand in front of any part. -/
lemma lacks_isList (hc : isPlain c) (hpart : Lacks p part) (hstarts : ∀ {w t}, part w t → Starts w)
    (h : IsList (IsSeparator inside c) part part w ts) : ¬ p <:+: w := by
  apply h.not_infix hp (fun _ => seam_of_isPlain_right hc) hpart hpart
  intro w t hw
  exact ⟨(hstarts hw).ne_nil, fun _ _ => seam_of_isPlain_left hc⟩

lemma lacks_isUnion (hrow : Lacks p row) (hstarts : ∀ {w t}, row w t → Starts w) :
    Lacks p (IsUnion inside row) := by
  rintro w t ⟨ts, -, hlist⟩
  exact lacks_isList hp rfl (lacks_isIntersection hp hrow hstarts) (fun h => h.starts hstarts) hlist

/-- What stands between brackets and the white space around it. -/
lemma not_infix_bracketed {d e : Char} (hd : isPlain d) (he : isPlain e) {l r : Text}
    (hl : IsSpace true l) (hr : IsSpace true r) (hw : ¬ p <:+: w) :
    ¬ p <:+: d :: (l ++ (w ++ (r ++ [e]))) := by
  have hclose : ∀ c ∈ r ++ [e], isPlain c := by
    intro c hc
    rcases List.mem_append.1 hc with hc | hc
    · exact hr.isPlain c hc
    · rwa [List.mem_singleton.1 hc]
  have hopen : ∀ c ∈ d :: l, isPlain c := List.forall_mem_cons.2 ⟨hd, hl.isPlain⟩
  apply hp.not_infix_plain_append hopen
  apply hp.not_infix_append_plain hw (hp.not_infix_of_isPlain hclose)
  exact fun c hc => hclose c (List.mem_of_mem_head? hc)

lemma lacks_opens (hrow : Lacks p row) (hunion : Lacks p union)
    (hstarts : ∀ {w t}, union w t → Starts w) : Lacks p (Opens row union) := by
  intro w t h
  cases h with
  | nullable hw =>
    have hsign : ∀ c ∈ ['?'], isPlain c := List.forall_mem_singleton.2 rfl
    exact hp.not_infix_plain_append hsign (hrow hw)
  | group hl hw hr => exact not_infix_bracketed hp rfl rfl hl hr (hunion hw)
  | generic hn hl hw hr =>
    have hparams := not_infix_bracketed hp (d := '<') (e := '>') rfl rfl hl hr
      (lacks_isList hp rfl hunion hstarts hw)
    apply hp.not_infix_append_plain (hp.not_infix_of_isName hn) hparams
    intro c hc
    obtain rfl : '<' = c := Option.some.inj hc
    rfl

lemma lacks_row {levels : Nat} (hatom : Lacks p (IsAtom IsPrimary levels inside)) :
    Lacks p (Row levels inside) := by
  rintro w t ⟨v, u, n, rfl, -, hv, hle, hn⟩
  apply hp.not_infix_append (hatom hv) (hp.not_infix_brackets hle)
  intro c hc d hd
  cases n with
  | zero => cases hd
  | succ n =>
    obtain rfl : '[' = d := Option.some.inj hd
    exact seam_bracket (hv.getLast?_of_isPrimary (hn.resolve_left (Nat.succ_ne_zero n)) c hc)

lemma lacks_isAtom (levels : Nat) (inside : Bool) : Lacks p (IsAtom IsPrimary levels inside) := by
  induction levels generalizing inside with
  | zero =>
    rintro w t (⟨hn, -⟩ | h)
    · exact hp.not_infix_of_isName hn
    · exact h.elim
  | succ levels ih =>
    rintro w t (⟨hn, -⟩ | h)
    · exact hp.not_infix_of_isName hn
    · exact lacks_opens hp (lacks_row hp (ih inside)) (lacks_isUnion hp (lacks_row hp (ih true))
        Row.starts) (fun h => h.starts Row.starts) h

/-- What is derived has no such text in it. -/
theorem Unread.not_infix_of_derives {levels : Nat} (h : Derives IsPrimary levels w t) :
    ¬ p <:+: w :=
  lacks_isUnion hp (lacks_row hp (lacks_isAtom hp levels false)) Row.starts h

end

end DocComment.TypeExpr
