import DocComment.Proofs.Tag.Write
import DocComment.Proofs.TypeExpr.Plain
import DocComment.Proofs.TypeExpr.Reread

/-!
# Signatures that are written and read again

A signature that is read from what another one is written as is written alike
(`Signature.write_of_read?_write`), and written signatures have no parenthesis in which parameters
might start (`Signature.not_mem_write`).
-/

namespace DocComment

open Text TypeExpr

namespace Signature

variable {types : TypeSyntax} {head : Text} {s s' : Signature}

/-- What stands behind `static` in the written form. -/
def body (types : TypeSyntax) (s : Signature) : Text :=
  s.returnType?.elim [] (fun t => types.write t ++ [' ']) ++ s.method

lemma write_eq (types : TypeSyntax) (s : Signature) :
    s.write types = (if s.isStatic then "static ".toList else []) ++ s.body types :=
  List.append_assoc _ _ _

/-- A signature by the last word, and what stands in front of it. -/
lemma exists_of_read? (h : read? types head = some s) : ∃ before,
    trimEnd ((afterStatic? head).getD head) = before ++ s.method ∧
      s.isStatic = (afterStatic? head).isSome ∧ (∀ c ∈ before.getLast?, isWhiteSpace c) ∧
      (s.method ≠ [] ∧ ∀ c ∈ s.method, isWhiteSpace c = false) ∧
      (before = [] ∧ s.returnType? = none ∨ before ≠ [] ∧ ∃ t, s.returnType? = some t ∧
        types.read? (trimEnd before) = some (t, byteSize (trimEnd before))) := by
  unfold read? at h
  dsimp only at h
  generalize trimEnd ((afterStatic? head).getD head) = words at h ⊢
  have hwords : (words.reverse.dropWhile (!isWhiteSpace ·)).reverse ++
      (words.reverse.takeWhile (!isWhiteSpace ·)).reverse = words := by
    rw [← List.reverse_append, List.takeWhile_append_dropWhile, List.reverse_reverse]
  have hmethod : ∀ c ∈ (words.reverse.takeWhile (!isWhiteSpace ·)).reverse,
      isWhiteSpace c = false := fun c hc => by
    simpa using List.mem_takeWhile_imp (List.mem_reverse.1 hc)
  have hbefore : ∀ c ∈ (words.reverse.dropWhile (!isWhiteSpace ·)).reverse.getLast?,
      isWhiteSpace c := by
    intro c hc
    rw [List.getLast?_reverse] at hc
    have hnot := List.head?_dropWhile_not (!isWhiteSpace ·) words.reverse
    rw [Option.mem_def.1 hc] at hnot
    simpa using hnot
  generalize (words.reverse.takeWhile (!isWhiteSpace ·)).reverse = method at h hwords hmethod
  generalize (words.reverse.dropWhile (!isWhiteSpace ·)).reverse = before at h hwords hbefore
  by_cases hname : isMethodName method
  · have hne : method ≠ [] := by
      rintro rfl
      cases hname
    rw [if_neg (by simp [hname])] at h
    split_ifs at h with hnil
    · obtain rfl := Option.some.inj h
      exact ⟨before, hwords.symm, rfl, hbefore, ⟨hne, hmethod⟩, .inl ⟨hnil, rfl⟩⟩
    · obtain ⟨⟨type, size⟩, htype, h⟩ := Option.bind_eq_some_iff.1 h
      dsimp only at h
      split_ifs at h with hsize
      obtain rfl := Option.some.inj h
      exact ⟨before, hwords.symm, rfl, hbefore, ⟨hne, hmethod⟩,
        .inr ⟨hnil, type, rfl, hsize ▸ htype⟩⟩
  · rw [if_pos (by simp [hname])] at h
    cases h

lemma exists_of_afterStatic? {t : Text} (h : afterStatic? head = some t) :
    ∃ c r, head = "static".toList ++ c :: r ∧ isWhiteSpace c ∧ t = trimStart r ∧ t ≠ [] := by
  unfold afterStatic? at h
  split at h
  · next c r hpre =>
    split_ifs at h with hc
    simp only [Bool.and_eq_true, decide_eq_true_eq] at hc
    obtain rfl := Option.some.inj h
    exact ⟨c, r, dropPrefix?_eq_some hpre, hc.1, rfl, hc.2⟩
  · cases h

lemma afterStatic?_append {c : Char} {r : Text} (hc : isWhiteSpace c) (hr : trimStart r ≠ []) :
    afterStatic? ("static".toList ++ c :: r) = some (trimStart r) := by
  have hpre : dropPrefix? "static".toList ("static".toList ++ c :: r) = some (c :: r) := rfl
  rw [afterStatic?, hpre]
  simp [hc, hr]

/-- White space and a word may follow `static`. -/
lemma afterStatic?_words_ne_none {l m r : Text} (hl : l ≠ []) (hwhite : ∀ c ∈ l, isWhiteSpace c)
    (hne : m ≠ []) (hm : ∀ c ∈ m, isWhiteSpace c = false) :
    afterStatic? ("static".toList ++ l ++ m ++ r) ≠ none := by
  obtain ⟨d, l, rfl⟩ := List.exists_cons_of_ne_nil hl
  obtain ⟨hd, hwhite⟩ := List.forall_mem_cons.1 hwhite
  have hrest : trimStart (l ++ (m ++ r)) = m ++ r := by
    rw [trimStart, List.dropWhile_append_of_pos hwhite]
    refine trimStart_eq fun c hc => ?_
    rw [List.head?_append_of_ne_nil _ hne] at hc
    exact hm c (List.mem_of_mem_head? hc)
  have hread := afterStatic?_append hd (r := l ++ (m ++ r)) (by simp [hrest, hne])
  rw [List.append_assoc, List.append_assoc, List.cons_append, hread]
  exact Option.some_ne_none _

/-- A type that takes all of a text is derived from it. -/
lemma derives_of_read? {t : TypeExpr} {w : Text} (h : TypeExpr.read? w = some (t, byteSize w)) :
    Derives IsPrimary maxNesting w t := by
  obtain ⟨u, rest, rfl, hsize, hderives, -⟩ := sound_read? h
  have hnil : dropBytes (byteSize (u ++ rest)) (u ++ rest ++ []) = [] :=
    dropBytes_byteSize_append _ _
  rw [List.append_nil, hsize, dropBytes_byteSize_append] at hnil
  rwa [hnil, List.append_nil]

/-- A text in which brackets pair has no brackets inside if it has none at all. -/
lemma plain_of_encloses {bad : Char → Bool} {u : Text} (h : encloses bad 0 u)
    (hu : ∀ c ∈ u, isBracket c = false) : ∀ c ∈ u, bad c = false := by
  induction u with
  | nil => simp
  | cons c u ih =>
    obtain ⟨hc, hu'⟩ := List.forall_mem_cons.1 hu
    rw [encloses_cons_of_not_isBracket hc, Bool.and_eq_true] at h
    exact List.forall_mem_cons.2 ⟨by simpa using h.1, ih h.2 hu'⟩

/-- Only the word `static` is read as a type that is written so. -/
lemma eq_static_of_derives {t : TypeExpr} {w : Text} (h : Derives IsPrimary maxNesting w t)
    (hw : '(' ∉ w) (ht : t.text = "static".toList) : w = "static".toList := by
  have hstripped : stripped w = "static".toList := by
    rw [← stripped_of_derives h hw, ht]
    rfl
  have hpairs : encloses isWhiteSpace 0 w := pairs_isUnion (pairs_row maxNesting false)
    (fun c hc => by simp [isJoint, hc]) rfl rfl (fun h => by cases h) h
  have hbracket : ∀ c ∈ w, isBracket c = false := by
    intro c hc
    by_contra hbracket
    rw [Bool.not_eq_false] at hbracket
    have hspace : isWhiteSpace c = false := by
      by_contra hspace
      rw [isBracket_of_isWhiteSpace (by simpa using hspace)] at hbracket
      cases hbracket
    have hmem : c ∈ "static".toList := hstripped ▸ (mem_stripped hspace).2 hc
    have hnone : "static".toList.any isBracket = false := rfl
    exact List.any_eq_false.1 hnone c hmem hbracket
  have hall := plain_of_encloses hpairs hbracket
  rw [← hstripped, stripped, List.filter_eq_self.2 fun c hc => by simp [hall c hc]]

/-- Words are parted in one way only. -/
lemma eq_of_append_word {x y m n : Text} (hx : ∀ c ∈ x.getLast?, isWhiteSpace c)
    (hy : ∀ c ∈ y.getLast?, isWhiteSpace c) (hm : ∀ c ∈ m, isWhiteSpace c = false)
    (hn : ∀ c ∈ n, isWhiteSpace c = false) (h : x ++ m = y ++ n) : x = y ∧ m = n := by
  have hreverse := congrArg List.reverse h
  rw [List.reverse_append, List.reverse_append] at hreverse
  obtain ⟨hword, hrest⟩ := eq_of_run_append (p := (!isWhiteSpace ·))
    (fun c hc => by simp [hm c (List.mem_reverse.1 hc)])
    (fun c hc => by simp [hn c (List.mem_reverse.1 hc)])
    (fun c hc => by simp [hx c (by rwa [List.head?_reverse] at hc)])
    (fun c hc => by simp [hy c (by rwa [List.head?_reverse] at hc)]) hreverse
  exact ⟨List.reverse_injective hrest, List.reverse_injective hword⟩

lemma body_of_none (hs : s.returnType? = none) : s.body .standard = s.method := by
  rw [body, hs]
  rfl

lemma body_of_some {t : TypeExpr} (hs : s.returnType? = some t) :
    s.body .standard = t.text ++ ' ' :: s.method := by
  rw [body, hs, Option.elim_some, List.append_assoc]
  rfl

section

variable (h : read? .standard head = some s) (hhead : '(' ∉ head)

include h

lemma head?_body :
    s.body .standard ≠ [] ∧ ∀ c ∈ (s.body .standard).head?, isWhiteSpace c = false := by
  obtain ⟨before, -, -, -, ⟨hne, hmethod⟩, hcases⟩ := exists_of_read? h
  refine ⟨by simp [body, hne], fun c hc => ?_⟩
  rcases hcases with ⟨-, hnone⟩ | ⟨-, t, ht, hread⟩
  · rw [body_of_none hnone] at hc
    exact hmethod c (List.mem_of_mem_head? hc)
  · have hwritten := (wellNamed_of_read? hread).isWritten
    rw [body_of_some ht, List.head?_append_of_ne_nil _ hwritten.ne_nil] at hc
    exact hwritten.isWhiteSpace_head? c hc

lemma getLast?_body : ∀ c ∈ (s.body .standard).getLast?, isWhiteSpace c = false := by
  obtain ⟨-, -, -, -, ⟨hne, hmethod⟩, -⟩ := exists_of_read? h
  intro c hc
  rw [body, List.getLast?_append_of_ne_nil _ hne] at hc
  exact hmethod c (List.mem_of_getLast? hc)

include hhead

/-- A signature that is not static is not written as one that is. -/
lemma afterStatic?_body (hstatic : s.isStatic = false) :
    afterStatic? (s.body .standard) = none := by
  obtain ⟨before, hwords, hisStatic, hbefore, ⟨hne, hmethod⟩, hcases⟩ := exists_of_read? h
  have hnone : afterStatic? head = none := by
    rw [hstatic] at hisStatic
    simpa using hisStatic.symm
  rw [hnone, Option.getD_none] at hwords
  by_contra hsome
  obtain ⟨t, ht⟩ := Option.ne_none_iff_exists'.1 hsome
  obtain ⟨c, r, hbody, hc, -⟩ := exists_of_afterStatic? ht
  rcases hcases with ⟨-, hreturn⟩ | ⟨hbefore', t, hreturn, hread⟩
  · -- The name of a method has no white space.
    have hmem : c ∈ s.method := by
      rw [← body_of_none hreturn, hbody]
      simp
    rw [hmethod c hmem] at hc
    cases hc
  · have hwell : WellNamed t := wellNamed_of_read? hread
    have hjoint : ∀ c, isWhiteSpace c → isJoint c := fun c hc => by simp [isJoint, hc]
    have hcut : "static".toList ++ c :: r = t.text ++ ' ' :: s.method := by
      rw [← hbody, body_of_some hreturn]
    have hends : ∀ {c : Char} {r : Text}, isWhiteSpace c →
        ∀ d ∈ (c :: r).head?, endsForm isWhiteSpace d := by
      intro c r hc d hd
      obtain rfl := Option.some.inj hd
      simp [endsForm, hc, isBracket_of_isWhiteSpace hc]
    have hstaticEncloses : encloses isWhiteSpace 0 "static".toList := by decide
    obtain ⟨htext, -⟩ := eq_of_encloses hstaticEncloses
      (hwell.enclosesJoints isWhiteSpace hjoint (fun _ => rfl) fun _ => rfl) hcut (hends hc)
      (hends rfl)
    -- So the word `static` stood in front of the name, and white space after it.
    obtain ⟨l, hl, hwhite, -⟩ := exists_trimEndBy isWhiteSpace before
    obtain ⟨l', hend, -⟩ := exists_trimEndBy isWhiteSpace head
    have hsplit : head = trimEnd before ++ l ++ s.method ++ l' := by
      rw [← show before = trimEnd before ++ l from hl, ← hwords]
      exact hend
    have hparen : '(' ∉ trimEnd before := fun hmem => hhead (by rw [hsplit]; simp [hmem])
    have hword := eq_static_of_derives (derives_of_read? hread) hparen htext.symm
    have hl' : before = "static".toList ++ l := by
      rw [← hword]
      exact hl
    have hne' : l ≠ [] := by
      rintro rfl
      rw [List.append_nil] at hl'
      have hlast := hbefore 'c' (by rw [hl']; rfl)
      cases hlast
    rw [hsplit, hword] at hnone
    exact afterStatic?_words_ne_none hne' hwhite hne hmethod hnone

/-- What stands behind `static` is found again. -/
lemma getD_afterStatic?_write :
    (afterStatic? (s.write .standard)).getD (s.write .standard) = s.body .standard ∧
      (afterStatic? (s.write .standard)).isSome = s.isStatic := by
  obtain ⟨hne, hbody⟩ := head?_body h
  rw [write_eq]
  cases hstatic : s.isStatic with
  | false =>
    rw [if_neg Bool.false_ne_true, List.nil_append, afterStatic?_body h hhead hstatic]
    exact ⟨rfl, rfl⟩
  | true =>
    have htrim := trimStart_eq hbody
    have hread : afterStatic? ("static ".toList ++ s.body .standard) = some (s.body .standard) := by
      have happend := afterStatic?_append (c := ' ') rfl (r := s.body .standard) (by rwa [htrim])
      rwa [htrim] at happend
    rw [if_pos rfl, hread]
    exact ⟨rfl, rfl⟩

/-- A signature that is read again is written alike. -/
theorem write_of_read?_write (h' : read? .standard (s.write .standard) = some s') :
    s'.write .standard = s.write .standard := by
  obtain ⟨hbody, hisStatic⟩ := getD_afterStatic?_write h hhead
  obtain ⟨before, -, -, -, ⟨-, hmethod⟩, hcases⟩ := exists_of_read? h
  obtain ⟨before', hwords, hstatic, hbefore', ⟨-, hmethod'⟩, hcases'⟩ := exists_of_read? h'
  rw [hbody, trimEnd_eq (getLast?_body h)] at hwords
  suffices hsame : s'.body .standard = s.body .standard by
    rw [write_eq, write_eq, hstatic, hisStatic, hsame]
  rcases hcases with ⟨-, hreturn⟩ | ⟨-, t, hreturn, hread⟩
  · rw [body_of_none hreturn] at hwords ⊢
    obtain ⟨rfl, hname⟩ := eq_of_append_word (x := []) (by simp) hbefore' hmethod hmethod' hwords
    rcases hcases' with ⟨-, hreturn'⟩ | ⟨hne', -⟩
    · rw [body_of_none hreturn', hname]
    · exact absurd rfl hne'
  · have hwell : WellNamed t := wellNamed_of_read? hread
    have hwritten := hwell.isWritten
    rw [body_of_some hreturn] at hwords ⊢
    obtain ⟨rfl, hname⟩ := eq_of_append_word (x := t.text ++ [' '])
      (fun c hc => by
        obtain rfl : ' ' = c := by simpa using hc
        rfl) hbefore' hmethod hmethod' (by simpa using hwords)
    rcases hcases' with ⟨hnil, -⟩ | ⟨-, t', hreturn', hread'⟩
    · simp at hnil
    · rw [trimEnd_append hwritten.isWhiteSpace_getLast?
        (List.forall_mem_singleton.2 rfl)] at hread'
      have hread'' : TypeExpr.read? (t.text ++ []) = some (t', byteSize t.text) := by
        rwa [List.append_nil]
      obtain ⟨rfl, -⟩ := hwell.eq_normal_of_read? (by simp) hread''
        (by rw [dropBytes_byteSize_append]; simp)
      rw [body_of_some hreturn', hwell.text_normal, hname]

/-- The name and the type stand in a text without parentheses. -/
lemma not_mem_of_read? : '(' ∉ s.method ∧
    ∀ t ∈ s.returnType?, ∃ w, '(' ∉ w ∧ Derives IsPrimary maxNesting w t := by
  obtain ⟨before, hwords, -, -, -, hcases⟩ := exists_of_read? h
  obtain ⟨l, hl, -⟩ := exists_trimEndBy isWhiteSpace ((afterStatic? head).getD head)
  have hgetD : '(' ∉ (afterStatic? head).getD head := by
    cases hstatic : afterStatic? head with
    | none => exact hhead
    | some t => exact fun hmem => hhead ((afterStatic?_suffix hstatic).subset hmem)
  have hparts : '(' ∉ before ++ s.method := by
    rw [← hwords]
    exact fun hmem => hgetD (by rw [hl]; exact List.mem_append_left _ hmem)
  simp only [List.mem_append, not_or] at hparts
  refine ⟨hparts.2, fun t ht => ?_⟩
  rcases hcases with ⟨-, hreturn⟩ | ⟨-, u, hreturn, hread⟩
  · rw [hreturn] at ht
    cases ht
  · obtain rfl : u = t := Option.some.inj (hreturn.symm.trans ht)
    obtain ⟨r, hr, -⟩ := exists_trimEndBy isWhiteSpace before
    refine ⟨trimEnd before, fun hmem => hparts.1 ?_, derives_of_read? hread⟩
    rw [hr]
    exact List.mem_append_left _ hmem

/-- A signature in front of the parameters is written without parentheses. -/
lemma not_mem_write : '(' ∉ s.write .standard := by
  obtain ⟨hmethod, htype⟩ := not_mem_of_read? h hhead
  have hbody : '(' ∉ s.body .standard := by
    cases hreturn : s.returnType? with
    | none => rwa [body_of_none hreturn]
    | some t =>
      obtain ⟨w, hw, hderives⟩ := htype t hreturn
      have htext : '(' ∉ t.text := by
        rwa [← mem_stripped rfl, stripped_of_derives hderives hw, mem_stripped rfl]
      rw [body_of_some hreturn]
      simp [htext, hmethod]
  rw [write_eq]
  split_ifs
  · simpa using hbody
  · exact hbody

end

end Signature

end DocComment
