import DocComment.Proofs.Tag.Covered

/-!
# Which commas separate parameters

A comma separates parameters where as many brackets have been opened as closed, whatever their
kinds. That is not where no pair of brackets stands around it: the reader takes a stray `>` as if it
closed a bracket, and a bracket that is never closed as if it went on. So a comma separates exactly
if as many pairs stand around it as the count has drifted in front of it
(`MethodPayload.separatesAt_iff_pairsAround_eq_drift`).
-/

namespace DocComment

open Text

namespace Text

variable {depth : Int} {l r : Text} {before after : List Text}

/-- Every opening bracket is a step up, and every closing one a step down. -/
lemma bracketStep_eq (c : Char) : bracketStep c =
    Bracket.total (fun b => if c = b.opening then 1 else 0) -
      Bracket.total fun b => if c = b.closing then 1 else 0 := by
  by_cases h : c ∈ ['(', '<', '[', '\x7b', ')', '>', ']', '\x7d']
  · simp only [List.mem_cons, List.not_mem_nil, or_false] at h
    rcases h with rfl | rfl | rfl | rfl | rfl | rfl | rfl | rfl <;> decide
  · simp only [List.mem_cons, List.not_mem_nil, or_false, not_or] at h
    simp [bracketStep, Bracket.total, Bracket.opening, Bracket.closing, h]

/-- The brackets that are open behind a text, less the strays, are what it opens more than it
closes. -/
lemma steps_eq (s : Text) : steps s =
    Bracket.total (fun b => b.opened 0 s) - Bracket.total fun b => b.strays 0 s := by
  have hcount : steps s =
      Bracket.total (fun b => s.count b.opening) - Bracket.total fun b => s.count b.closing := by
    induction s with
    | nil => rfl
    | cons c s ih =>
      rw [steps, ih, bracketStep_eq]
      simp only [Bracket.total, List.count_cons, beq_iff_eq]
      omega
  have hkind := fun b : Bracket => b.opened_add_count (n := 0) s
  have h₁ := hkind .round
  have h₂ := hkind .angle
  have h₃ := hkind .square
  have h₄ := hkind .curly
  rw [hcount]
  simp only [Bracket.total]
  omega

/-- The pairs around a place, less the drift in front of it, are what has been opened more than
closed. -/
lemma steps_eq_pairsAround_sub_drift (p q : Text) : steps p = pairsAround p q - drift p q := by
  rw [steps_eq, pairsAround, drift]
  simp only [Bracket.total]
  omega

/-- The last piece of a text goes on in what follows it. -/
lemma exists_pieces (depth : Int) (p : Text) : ∃ before l, splitParams depth p = before ++ [l] ∧
    p = before.flatMap (· ++ [',']) ++ l ∧ ∀ s r after,
      splitParams (depth + steps p) s = r :: after →
        splitParams depth (p ++ s) = before ++ (l ++ r) :: after := by
  induction p generalizing depth with
  | nil => exact ⟨[], [], rfl, rfl, fun s r after h => by simpa [steps] using h⟩
  | cons c p ih =>
    by_cases hc : c = ',' ∧ depth = 0
    · obtain ⟨rfl, rfl⟩ := hc
      obtain ⟨before, l, hsplit, hp, hmore⟩ := ih 0
      have hstep : steps (',' :: p) = steps p := Int.zero_add _
      refine ⟨[] :: before, l, ?_, by rw [hp]; simp, fun s r after h => ?_⟩
      · rw [splitParams_cons, if_pos ⟨rfl, rfl⟩, hsplit]
        rfl
      · rw [hstep] at h
        rw [List.cons_append, splitParams_cons, if_pos ⟨rfl, rfl⟩, hmore s r after h]
        rfl
    · obtain ⟨before, l, hsplit, hp, hmore⟩ := ih (depth + bracketStep c)
      have hdepth : depth + steps (c :: p) = depth + bracketStep c + steps p := by
        rw [steps, Int.add_assoc]
      simp only [hdepth, List.cons_append, splitParams_cons, if_neg hc, hsplit]
      cases before with
      | nil =>
        refine ⟨[], c :: l, rfl, by rw [hp]; rfl, fun s r after h => ?_⟩
        rw [hmore s r after h]
        rfl
      | cons part before =>
        refine ⟨(c :: part) :: before, l, rfl, by rw [hp]; simp, fun s r after h => ?_⟩
        rw [hmore s r after h]
        rfl

end Text

namespace MethodPayload

variable {types : TypeSyntax} {payload head list : Text} {m : MethodPayload}

/-- No parameter reaches over the byte at `x`. -/
def SeparatesAt (m : MethodPayload) (x : Nat) : Prop := ∀ f ∈ m.params, f.stop ≤ x ∨ x < f.start

instance (m : MethodPayload) (x : Nat) : Decidable (m.SeparatesAt x) := by
  unfold SeparatesAt
  infer_instance

/-- A comma separates where as many brackets have been opened as closed. -/
lemma separatesAt_iff_steps {start : Nat} {p q : Text}
    (hparams : m.params = Fragment.ofPieces start (splitParams 0 (p ++ ',' :: q))) :
    m.SeparatesAt (start + byteSize p) ↔ steps p = 0 := by
  obtain ⟨before, l, -, hp, hmore⟩ := exists_pieces 0 p
  simp only [Int.zero_add] at hmore
  have hcomma : ','.utf8Size = 1 := rfl
  have hsize : byteSize p = byteSize (before.flatMap (· ++ [','])) + byteSize l := by
    conv_lhs => rw [hp]
    rw [byteSize_append]
  constructor
  · intro h
    by_contra hsteps
    obtain ⟨r, after, hafter⟩ := List.exists_cons_of_ne_nil
      (splitParams_ne_nil (steps p + bracketStep ',') q)
    -- The comma stands in the piece that goes on behind `p`, so it is in the fragment of the piece.
    have hpieces := hmore (',' :: q) (',' :: r) after (by
      rw [splitParams_cons, if_neg fun h => hsteps h.2, hafter])
    obtain ⟨f, hf, hstart, hstop⟩ := Fragment.exists_covers_of_piece (p := l) (q := r)
      (start + byteSize (before.flatMap (· ++ [',']))) rfl (by decide : isWhiteSpace ',' = false)
    have hmem : f ∈ m.params := by
      rw [hparams, hpieces, Fragment.ofPieces_append, Fragment.ofPieces_cons]
      exact List.mem_append_right _ (List.mem_append_left _ (Option.mem_toList.2 hf))
    have := h f hmem
    omega
  · intro hsteps f hf
    have hpieces := hmore (',' :: q) [] (splitParams 0 q) (by
      rw [hsteps, splitParams_cons, if_pos ⟨rfl, rfl⟩])
    rw [List.append_nil, List.append_cons before l] at hpieces
    rw [hparams, hpieces, Fragment.ofPieces_append, List.mem_append] at hf
    rcases hf with hf | hf
    · have hstop := Fragment.stop_le hf
      have hjoin : [','].intercalate (before ++ [l]) = p := by
        rw [intercalate_append_cons, hp]
        simp
      rw [hjoin] at hstop
      exact .inl hstop
    · have hstart := (Fragment.pairwise_ofPieces _ _).2 f hf
      have hend : byteSize ((before ++ [l]).flatMap (· ++ [','])) = byteSize p + 1 := by
        rw [hsize, List.flatMap_append, byteSize_append]
        simp [hcomma, Nat.add_assoc]
      omega

/-- Commas are separators where as many pairs of brackets stand around them as the count has
drifted. Where nothing has drifted these are the commas that are not enclosed; elsewhere an enclosed
comma is none unless the drift is the number of the pairs, and a comma that is not enclosed is none
at all. -/
theorem separatesAt_iff_pairsAround_eq_drift (h : read? types payload = some m) :
    ∃ head list rest, payload = head ++ '(' :: (list ++ ')' :: rest) ∧ '(' ∉ head ∧
      Bracket.round.Pairs list ∧ ∀ p q, list = p ++ ',' :: q →
        let comma := byteSize (head ++ '(' :: p)
        (m.SeparatesAt comma ↔ pairsAround p q = drift p q) ∧
          ((m.SeparatesAt comma ↔ ¬ IsEnclosed p q) ↔
            drift p q = 0 ∨ IsEnclosed p q ∧ pairsAround p q ≠ drift p q) ∧
          ((∀ b : Bracket, b.Pairs list) → (m.SeparatesAt comma ↔ ¬ IsEnclosed p q)) := by
  obtain ⟨head, list, rest, hhead, hparens, hpayload, -, hparams, -⟩ := cut_of_read? h
  refine ⟨head, list, rest, hpayload, hhead, Bracket.pairs_iff.2 (pairsParens_iff.1 hparens), ?_⟩
  rintro p q rfl comma
  have hcomma : comma = byteSize head + 1 + byteSize p := by
    have hopen : '('.utf8Size = 1 := rfl
    rw [show comma = byteSize (head ++ '(' :: p) from rfl, byteSize_append, byteSize_cons, hopen,
      Nat.add_assoc]
  have hseparates : m.SeparatesAt comma ↔ pairsAround p q = drift p q := by
    rw [hcomma, separatesAt_iff_steps hparams, steps_eq_pairsAround_sub_drift p q]
    omega
  have hrule : (m.SeparatesAt comma ↔ ¬ IsEnclosed p q) ↔
      drift p q = 0 ∨ IsEnclosed p q ∧ pairsAround p q ≠ drift p q := by
    rw [hseparates, isEnclosed_iff]
    omega
  refine ⟨hseparates, hrule, fun hpairs => hrule.2 (.inl ?_)⟩
  exact drift_eq_zero hpairs fun b => by cases b <;> decide

/-- The angle bracket of an arrow is stray, and the comma behind it separates nothing. -/
theorem separatesAt_iff_pairsAround_eq_drift_arrow :
    let payload := "f(A<B, C> $a, $b = 1 -> 2, $c)".toList
    let m : MethodPayload := ⟨⟨false, none, ['f']⟩,
      [⟨"A<B, C> $a".toList, 2, 12⟩, ⟨"$b = 1 -> 2, $c".toList, 14, 29⟩], []⟩
    read? .standard payload = some m ∧ ∃ head list rest,
      payload = head ++ '(' :: (list ++ ')' :: rest) ∧ '(' ∉ head ∧ Bracket.round.Pairs list ∧
        ∀ p q, list = p ++ ',' :: q →
          let comma := byteSize (head ++ '(' :: p)
          (m.SeparatesAt comma ↔ pairsAround p q = drift p q) ∧
            ((m.SeparatesAt comma ↔ ¬ IsEnclosed p q) ↔
              drift p q = 0 ∨ IsEnclosed p q ∧ pairsAround p q ≠ drift p q) ∧
            ((∀ b : Bracket, b.Pairs list) → (m.SeparatesAt comma ↔ ¬ IsEnclosed p q)) := by
  intro payload m
  have hread : read? .standard payload = some m := by decide +kernel
  exact ⟨hread, separatesAt_iff_pairsAround_eq_drift hread⟩

/-- No pair of brackets stands around the comma behind a row with an arrow, and it separates
nothing. -/
theorem not_separatesAt_arrow :
    let p := "$a = [1 => 2]".toList
    let q := " $b".toList
    let m : MethodPayload := ⟨⟨false, none, ['f']⟩, [⟨"$a = [1 => 2], $b".toList, 2, 19⟩], []⟩
    read? .standard ('f' :: '(' :: (p ++ ',' :: q ++ [')'])) = some m ∧
      ¬ (m.SeparatesAt (byteSize ('f' :: '(' :: p)) ↔ ¬ IsEnclosed p q) := by
  decide +kernel

end MethodPayload

end DocComment
