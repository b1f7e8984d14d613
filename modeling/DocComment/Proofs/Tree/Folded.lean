import DocComment.Proofs.Tree.Moved
import DocComment.Proofs.Tree.Written

/-!
# The text of a node and its folded text

The text of a node *folds* to one in which a line feed stands for every line break with its
decoration and the blanks behind (`Text.Folds`). Every node has such a text (`exists_folds`), and it
can be put on lines of a comment again (`Folds.keepsLines`). Texts that fold to the same text have
the same tokens, but for the decorations of their lines (`Folds.foldLexemes_eq`).
-/

namespace DocComment

open Text Token

/-! ### Lexemes without the layout of their lines -/

namespace Token

variable {ts us : List Token}

/-- Tokens as folded text has them: every line break is a line feed, and the blanks after it are
dropped. -/
def foldLexemes (afterBreak : Bool) : List Token → List (Kind × Text)
  | [] => []
  | t :: ts =>
    match t.kind with
    | .lineBreak => (.lineBreak, ['\n']) :: foldLexemes true ts
    | .blank => if afterBreak then foldLexemes true ts else lexeme t :: foldLexemes false ts
    | _ => lexeme t :: foldLexemes false ts

/-- The pieces of folded text are lexemes, and those of line breaks have no index. -/
lemma map_foldLines (b : Bool) (ts : List Token) (i : Nat) :
    (foldLines b (ts.zipIdx i)).map (fun p => (p.1, p.2.isSome)) =
      (foldLexemes b ts).map fun l => (l.2, decide (l.1 ≠ .lineBreak)) := by
  induction ts generalizing b i with
  | nil => rfl
  | cons t ts ih =>
    rw [List.zipIdx_cons, foldLines, foldLexemes]
    cases hk : t.kind <;> cases b <;> simp [ih, lexeme, hk]

lemma folded_eq_flatMap (ts : List Token) : folded ts = (foldLexemes false ts).flatMap (·.2) := by
  have hmap := congrArg (List.flatMap (·.1)) (map_foldLines false ts 0)
  rwa [List.flatMap_map, List.flatMap_map] at hmap

/-- The first token is of the same kind. -/
lemma head?_foldLexemes (ts : List Token) :
    (foldLexemes false ts).head?.map (·.1) = ts.head?.map kind := by
  cases ts with
  | nil => rfl
  | cons t ts =>
    rw [foldLexemes]
    cases hk : t.kind <;> simp [hk, lexeme]

lemma foldLexemes_of_isContent {t : Token} (ht : t.isContent) (ts : List Token) :
    foldLexemes false (t :: ts) = lexeme t :: foldLexemes false ts := by
  obtain ⟨hbreak, -, -⟩ := isContent_iff.1 ht
  rw [foldLexemes]
  cases hk : t.kind <;> simp_all

lemma foldLexemes_append (h : ∀ t ∈ ts, t.kind ≠ .lineBreak) (us : List Token) :
    foldLexemes false (ts ++ us) = ts.map lexeme ++ foldLexemes false us := by
  induction ts with
  | nil => rfl
  | cons t ts ih =>
    obtain ⟨ht, hts⟩ := List.forall_mem_cons.1 h
    rw [List.cons_append, foldLexemes, ih hts]
    cases hk : t.kind <;> simp_all

lemma foldLexemes_of_head (h : ∀ t ∈ ts.head?, t.kind ≠ .blank) :
    foldLexemes true ts = foldLexemes false ts := by
  cases ts with
  | nil => rfl
  | cons t ts =>
    have ht := h t rfl
    rw [foldLexemes, foldLexemes]
    cases hk : t.kind <;> simp_all

lemma foldLexemes_blanks (h : ∀ t ∈ ts, t.kind = .blank) (us : List Token) :
    foldLexemes true (ts ++ us) = foldLexemes true us := by
  induction ts with
  | nil => rfl
  | cons t ts ih =>
    obtain ⟨ht, hts⟩ := List.forall_mem_cons.1 h
    rw [List.cons_append, foldLexemes, ht]
    exact ih hts

end Token

/-! ### Folding -/

namespace Text

/-- Text on one line of a comment. -/
structure IsLine (s : Text) : Prop where
  not_mem_newline : '\n' ∉ s
  not_mem_return : '\r' ∉ s
  closes : closes s = false

/-- The text of a node, and the text that it folds to. Every line but the first goes on with the
text in front of it. -/
inductive Folds (stars : Bool) : (s folded : Text) → Prop where
  | line {l : Text} (hl : IsLine l) : Folds stars l l
  | cons {l nl d bl s f : Text} (hl : IsLine l) (hnl : IsNewline nl)
      (hd : decoration (d ++ (bl ++ s)) = d) (hbl : ∀ c ∈ bl, isBlank c) (hf : continues stars f)
      (h : Folds stars s f) : Folds stars (l ++ (nl ++ d ++ (bl ++ s))) (l ++ '\n' :: f)

variable {stars stars' : Bool} {l nl d bl s s' f : Text}

/-- The tokens of a line, of the line break behind it and of what stands there. -/
lemma exists_scanFrom_line (hl : '\n' ∉ l) (hr : '\r' ∉ l) (hnl : IsNewline nl)
    (hd : decoration (d ++ (bl ++ s)) = d) (hbl : ∀ c ∈ bl, isBlank c)
    (hs : ∀ c ∈ s.head?, isBlank c = false) (i : Nat) :
    ∃ t blanks j, t.kind = .lineBreak ∧ t.text = nl ++ d ∧ (∀ b ∈ blanks, b.kind = .blank) ∧
      scanFrom false i (l ++ (nl ++ d ++ (bl ++ s))) =
        scanFrom false i l ++ t :: (blanks ++ scanFrom false j s) := by
  have hbreak := scanFrom_newline hnl hd
  have hseam : scanFrom false i (l ++ (nl ++ d ++ (bl ++ s))) =
      scanFrom false i l ++ scanFrom false (i + byteSize l) (nl ++ d ++ (bl ++ s)) := by
    cases l with
    | nil => simp
    | cons c l =>
      refine scanFrom_append ?_ i (fun hlast => absurd (List.mem_of_getLast? hlast) hr)
        (fun _ _ _ => ?_) (List.cons_ne_nil c l)
      · rcases hnl with rfl | rfl <;> rfl
      · rcases hnl with rfl | rfl <;> rfl
  rw [hseam, hbreak, scanFrom_blanks hbl hs]
  refine ⟨_, _, _, rfl, rfl, fun b hb => ?_, rfl⟩
  split_ifs at hb
  · cases hb
  · rw [List.mem_singleton.1 hb]

/-- A text without a closing delimiter among its tokens is not closed. -/
lemma closes_eq_false_of_kind {i : Nat} (h : ∀ t ∈ scanFrom false i s, t.kind ≠ .closing) :
    closes s = false := by
  by_contra hclosed
  rw [Bool.not_eq_false, closes_iff] at hclosed
  obtain ⟨before, after, rfl⟩ := hclosed
  have hsplit : before ++ ['*', '/'] ++ after = before ++ '*' :: '/' :: after := by simp
  have hscan (j : Nat) :
      (⟨.closing, ['*', '/'], j⟩ : Token) ∈ scanFrom false j ('*' :: '/' :: after) := by
    rw [scanFrom_cons]
    exact List.mem_cons_self
  rw [hsplit] at h
  cases before with
  | nil => exact h _ (hscan i) rfl
  | cons c before =>
    have hstops : stops ('*' :: '/' :: after) := rfl
    rw [scanFrom_append hstops i (by simp) (fun _ _ _ => rfl) (List.cons_ne_nil c before)] at h
    exact h _ (List.mem_append_right _ (hscan _)) rfl

namespace Folds

lemma head?_of_continues (h : continues stars s) : ∃ c ∈ s.head?, isBlank c = false ∧ c ≠ '\n' := by
  obtain ⟨⟨c, hc, hblank, hn, -⟩, -⟩ := continues_iff.1 h
  exact ⟨c, hc, hblank, hn⟩

/-- The first line stays as it is. -/
lemma head?_eq (h : Folds stars s f) (hn : f.head? ≠ some '\n') : s.head? = f.head? := by
  cases h with
  | line _ => rfl
  | @cons l nl d bl s f =>
    cases l with
    | nil => exact absurd rfl hn
    | cons c l => rfl

/-- A line goes on as its folded text does. -/
lemma head?_eq_of_continues (h : Folds stars s f) (hf : continues stars f) : s.head? = f.head? := by
  refine h.head?_eq fun hn => ?_
  obtain ⟨c, hc, -, hne⟩ := head?_of_continues hf
  exact hne (Option.some.inj ((Option.mem_def.1 hc).symm.trans hn))

lemma isBlank_head? (h : Folds stars s f) (hf : continues stars f) :
    ∀ c ∈ s.head?, isBlank c = false := by
  intro c hc
  rw [h.head?_eq_of_continues hf] at hc
  obtain ⟨d, hd, hblank, -⟩ := head?_of_continues hf
  rwa [Option.some.inj ((Option.mem_def.1 hc).symm.trans hd)]

lemma isPrefix_append_iff {p t : Text} (ht : ∀ c ∈ t.head?, c ∉ p) : p <+: s ++ t ↔ p <+: s := by
  refine ⟨fun h => ?_, fun h => h.trans (List.prefix_append s t)⟩
  induction s generalizing p with
  | nil =>
    obtain ⟨r, rfl⟩ := h
    cases p with
    | nil => exact List.prefix_refl _
    | cons c p => exact absurd List.mem_cons_self (ht c rfl)
  | cons d s ih =>
    cases p with
    | nil => exact List.nil_prefix
    | cons c p =>
      rw [List.cons_append, List.cons_prefix_cons] at h
      exact List.cons_prefix_cons.2
        ⟨h.1, ih (fun c hc hmem => ht c hc (List.mem_cons_of_mem _ hmem)) h.2⟩

/-- What the first line starts with is what the text starts with. -/
lemma isPrefix_iff (h : Folds stars s f) {p : Text} (hn : '\n' ∉ p) (hr : '\r' ∉ p) :
    p <+: s ↔ p <+: f := by
  cases h with
  | line _ => rfl
  | @cons l nl d bl s f hl hnl =>
    rw [isPrefix_append_iff, isPrefix_append_iff]
    · exact fun c hc => Option.some.inj hc ▸ hn
    · rcases hnl with rfl | rfl
      · exact fun c hc => Option.some.inj hc ▸ hn
      · exact fun c hc => Option.some.inj hc ▸ hr

/-- One line is its own folded text. -/
lemma eq_of_not_mem (h : Folds stars s f) (hn : '\n' ∉ s ∨ '\n' ∉ f) : s = f := by
  cases h with
  | line _ => rfl
  | @cons l nl d bl s f hl hnl =>
    refine absurd hn (not_or.2 ⟨fun hn => hn ?_, fun hn => hn (by simp)⟩)
    rcases hnl with rfl | rfl
    · simp
    · simp

/-- The last line ends as it does. -/
lemma getLast?_eq (h : Folds stars s f) : s.getLast? = f.getLast? := by
  induction h with
  | line _ => rfl
  | @cons l nl d bl s f hl hnl hd hbl hf h ih =>
    obtain ⟨c, hc, -⟩ := head?_of_continues hf
    have hne : f ≠ [] := by
      rintro rfl
      cases hc
    have hne' : s ≠ [] := by
      rintro rfl
      rw [← h.head?_eq_of_continues hf] at hc
      cases hc
    rw [← List.append_assoc, ← List.append_assoc, List.getLast?_append_of_ne_nil _ hne', ih,
      List.getLast?_append_of_ne_nil _ (List.cons_ne_nil _ f), List.getLast?_cons_of_ne_nil hne]

/-- A folded text can be put on lines of a comment. -/
lemma keepsLines (h : Folds stars s f) : Text.keepsLines stars f := by
  induction h with
  | line hl => exact keepsLines_of_not_mem hl.not_mem_return hl.not_mem_newline hl.closes
  | @cons l nl d bl s f hl hnl hd hbl hf h ih =>
    refine keepsLines_append
      (keepsLines_of_not_mem hl.not_mem_return hl.not_mem_newline hl.closes)
      (keepsLines_cons.2 ⟨by decide, by simp, fun _ => hf, ih⟩) fun c hc => ?_
    obtain rfl : '\n' = c := by simpa using hc
    rfl

/-- The lexemes of a first line, and those of the lines after it. -/
lemma exists_foldLexemes (hl : IsLine l) (hnl : IsNewline nl)
    (hd : decoration (d ++ (bl ++ s)) = d) (hbl : ∀ c ∈ bl, isBlank c) (hf : continues stars f)
    (h : Folds stars s f) (i : Nat) :
    ∃ j, foldLexemes false (scanFrom false i (l ++ (nl ++ d ++ (bl ++ s)))) =
      (scanFrom false i l).map lexeme ++
        (.lineBreak, ['\n']) :: foldLexemes false (scanFrom false j s) := by
  have hhead := h.isBlank_head? hf
  obtain ⟨t, blanks, j, hk, -, hblanks, hscan⟩ :=
    exists_scanFrom_line hl.not_mem_newline hl.not_mem_return hnl hd hbl hhead i
  refine ⟨j, ?_⟩
  rw [hscan, foldLexemes_append (kind_ne_lineBreak_of_not_mem hl.not_mem_newline i),
    foldLexemes, hk]
  dsimp only
  rw [foldLexemes_blanks hblanks, foldLexemes_of_head fun t ht => kind_ne_blank_of_head hhead ht]

lemma foldLexemes_line (hl : IsLine l) (i : Nat) :
    foldLexemes false (scanFrom false i l) = (scanFrom false i l).map lexeme := by
  have happend := foldLexemes_append (kind_ne_lineBreak_of_not_mem hl.not_mem_newline i) []
  rwa [List.append_nil, foldLexemes, List.append_nil] at happend

/-- Texts that fold to the same text have the same lexemes but for the starts of their lines. -/
theorem foldLexemes_eq (h : Folds stars s f) (h' : Folds stars' s' f) (i j : Nat) :
    foldLexemes false (scanFrom false i s) = foldLexemes false (scanFrom false j s') := by
  induction h generalizing s' i j with
  | @line l hl =>
    cases h' with
    | line _ => rw [foldLexemes_line hl, foldLexemes_line hl, map_lexeme_scanFrom false i j]
    | cons => exact absurd (by simp) hl.not_mem_newline
  | @cons l nl d bl s f hl hnl hd hbl hf h ih =>
    generalize hfolded : l ++ '\n' :: f = g at h'
    cases h' with
    | line hl' => exact absurd (hfolded ▸ by simp) hl'.not_mem_newline
    | @cons l' nl' d' bl' s' f' hl' hnl' hd' hbl' hf' h' =>
      obtain ⟨rfl, rfl⟩ := eq_of_append_cons_eq hfolded <| by
        rw [List.count_eq_zero.2 hl.not_mem_newline, List.count_eq_zero.2 hl'.not_mem_newline]
      obtain ⟨k, hk⟩ := exists_foldLexemes hl hnl hd hbl hf h i
      obtain ⟨k', hk'⟩ := exists_foldLexemes hl' hnl' hd' hbl' hf' h' j
      rw [hk, hk', ih h' k k', map_lexeme_scanFrom false i j]

/-- The tokens of a text fold to its folded text. -/
lemma folded_eq (h : Folds stars s f) (i : Nat) : folded (scanFrom false i s) = f := by
  have hline : ∀ (l : Text) (i : Nat), ((scanFrom false i l).map lexeme).flatMap (·.2) = l :=
    fun l i => by
      rw [List.flatMap_map]
      exact source_scanFrom false i l
  rw [folded_eq_flatMap]
  induction h generalizing i with
  | line hl => rw [foldLexemes_line hl, hline]
  | @cons l nl d bl s f hl hnl hd hbl hf h ih =>
    obtain ⟨j, hj⟩ := exists_foldLexemes hl hnl hd hbl hf h i
    rw [hj, List.flatMap_append, hline, List.flatMap_cons, ih]
    rfl

/-- Content at the start of a text stays there. -/
lemma head?_of_isContent (h : Folds stars s f) {i : Nat} {t : Token}
    (ht : t ∈ (scanFrom false i s).head?) (hcontent : t.isContent) : f.head? = s.head? := by
  obtain ⟨ts, hts⟩ := List.head?_eq_some_iff.1 ht
  obtain ⟨am, c, r, -, htext⟩ := mem_scanFrom (List.mem_of_mem_head? ht)
  have hs : s = t.text ++ source ts := by rw [← source_scanFrom false i s, hts, source_cons]
  rw [← h.folded_eq i, folded_eq_flatMap, hts, foldLexemes_of_isContent hcontent, hs]
  simp [lexeme, htext]

end Folds

/-- A text that keeps its lines is the folded text of what it is on lines of a comment. -/
lemma folds_reline {ls : Text} (hls : IsLineStart stars ls) (h : keepsLines stars f) :
    Folds stars (reline ls f) f := by
  induction hlength : f.length using Nat.strongRecOn generalizing f with
  | ind n ih =>
    by_cases hn : '\n' ∈ f
    · obtain ⟨l, f, rfl, hl⟩ := List.eq_append_cons_of_mem hn
      have hrest : keepsLines stars f := keepsLines_of_suffix ⟨l ++ ['\n'], by simp⟩ h
      have hcont : continues stars f := by
        have hsuffix : keepsLines stars ('\n' :: f) := keepsLines_of_suffix ⟨l, rfl⟩ h
        exact (keepsLines_cons.1 hsuffix).2.2.1 rfl
      have hline : keepsLines stars l := keepsLines_of_isPrefix ⟨'\n' :: f, rfl⟩ h fun hlast =>
        hl (List.mem_of_getLast? hlast)
      have hIsLine : IsLine l := ⟨hl, not_mem_of_keepsLines hline, closes_of_keepsLines hline⟩
      have hfolds := ih f.length (by rw [← hlength]; simp; omega) hrest rfl
      have hreline : reline ls (l ++ '\n' :: f) = l ++ (ls ++ reline ls f) := by
        rw [reline_append, reline_of_not_mem ls hl, reline_cons, if_pos rfl]
      have hhead := hfolds.head?_eq_of_continues hcont
      rw [hreline]
      generalize reline ls f = r at hfolds hhead
      cases hls with
      | @starred _ nl bl hnl hbl =>
        rw [List.append_assoc nl]
        have hcons : Folds stars (l ++ (nl ++ (bl ++ ['*', ' ']) ++ ([] ++ r))) (l ++ '\n' :: f) :=
          .cons hIsLine hnl (decoration_starred hbl _) (List.forall_mem_nil _) hcont hfolds
        exact hcons
      | @bare nl bl hnl hbl =>
        have hr : ∀ c ∈ r.head?, isBlank c = false ∧ c ≠ '*' := by
          intro c hc
          rw [hhead] at hc
          obtain ⟨⟨d, hd, hblank, -, hstar⟩, -⟩ := continues_iff.1 hcont
          obtain rfl : d = c := Option.some.inj ((Option.mem_def.1 hd).symm.trans hc)
          exact ⟨hblank, hstar rfl⟩
        have hcons : Folds false (l ++ (nl ++ bl ++ ([] ++ r))) (l ++ '\n' :: f) :=
          .cons hIsLine hnl (decoration_bare hbl hr) (List.forall_mem_nil _) hcont hfolds
        exact hcons
    · rw [reline_of_not_mem ls hn]
      exact .line ⟨hn, not_mem_of_keepsLines h, closes_of_keepsLines h⟩

end Text

/-! ### The text of a node -/

namespace Token

variable {ts us gap : List Token} {u : Token}

/-- Whether behind every line break, and maybe blanks, stands content that starts no tag. -/
def goesOn : List Token → Bool
  | [] => true
  | t :: ts =>
    (t.kind ≠ .lineBreak ||
      (ts.dropWhile (·.kind = .blank)).head?.any fun u => u.isContent && u.kind ≠ .marker) &&
    goesOn ts

lemma goesOn_of_append (h : goesOn (ts ++ us)) : goesOn us := by
  induction ts with
  | nil => exact h
  | cons t ts ih =>
    rw [List.cons_append, goesOn, Bool.and_eq_true] at h
    exact ih h.2

lemma goesOn_gap (hgap : ∀ g ∈ gap, g.isSeparator) (hu : u.isContent)
    (hnot : startsNode gap u = false) (h : goesOn (u :: ts)) : goesOn (gap ++ u :: ts) := by
  induction gap with
  | nil => exact h
  | cons g gap ih =>
    obtain ⟨hg, hgap'⟩ := List.forall_mem_cons.1 hgap
    rw [List.cons_append, goesOn, Bool.and_eq_true, Bool.or_eq_true]
    rcases isSeparator_iff.1 hg with hk | hk
    · -- No other line break may follow, and no tag.
      have hbreaks : breaks gap = 0 ∧ u.kind ≠ .marker := by
        have hcons : breaks (g :: gap) = breaks gap + 1 := by simp [breaks, hk]
        simp only [startsNode, hcons, Bool.or_eq_false_iff, Bool.and_eq_false_iff,
          decide_eq_false_iff_not] at hnot
        exact ⟨by omega, hnot.2.resolve_left (by omega)⟩
      have hblank : ∀ t ∈ gap, decide (t.kind = .blank) := by
        intro t ht
        have hzero := List.countP_eq_zero.1 hbreaks.1 t ht
        rcases isSeparator_iff.1 (hgap' t ht) with hk | hk
        · simp [hk] at hzero
        · simp [hk]
      refine ⟨.inr ?_, ih hgap' (by simp [startsNode, hbreaks.1])⟩
      rw [List.dropWhile_append_of_pos hblank, List.dropWhile_cons_of_neg
        (by simpa using (isContent_iff.1 hu).2.1)]
      simp [hu, hbreaks.2]
    · have hsame : breaks (g :: gap) = breaks gap := by simp [breaks, hk]
      refine ⟨.inl (by simp [hk]), ih hgap' ?_⟩
      rwa [startsNode, ← hsame]

lemma Solid.goesOn (h : Solid ts) : goesOn ts := by
  induction h with
  | @single t ht => simp [Token.goesOn, (isContent_iff.1 ht).1]
  | @cons t u gap ts ht hgap hnot hrest ih =>
    rw [Token.goesOn, Bool.and_eq_true, Bool.or_eq_true]
    obtain ⟨u', us, hu, hcontent⟩ := hrest.exists_cons
    obtain ⟨rfl, -⟩ := List.cons.inj hu
    exact ⟨.inl (by simp [(isContent_iff.1 ht).1]), goesOn_gap hgap hcontent hnot ih⟩

end Token

namespace Text

variable {stars : Bool} {s f : Text}

lemma pairsReturns_of_suffix {t : Text} (h : t <:+ s) (hs : pairsReturns s) : pairsReturns t := by
  obtain ⟨p, rfl⟩ := h
  induction p with
  | nil => exact hs
  | cons c p ih =>
    rw [List.cons_append, pairsReturns, Bool.and_eq_true] at hs
    exact ih hs.2

/-- A text is one line, or has a line break. -/
lemma exists_line (h : pairsReturns s) : ('\n' ∉ s ∧ '\r' ∉ s) ∨
    ∃ l nl t, s = l ++ (nl ++ t) ∧ IsNewline nl ∧ '\n' ∉ l ∧ '\r' ∉ l := by
  induction s with
  | nil => exact .inl ⟨by simp, by simp⟩
  | cons c s ih =>
    rw [pairsReturns, Bool.and_eq_true, Bool.or_eq_true, decide_eq_true_eq, decide_eq_true_eq] at h
    by_cases hn : c = '\n'
    · exact .inr ⟨[], ['\n'], s, by rw [hn]; rfl, .inl rfl, by simp, by simp⟩
    by_cases hr : c = '\r'
    · obtain ⟨t, rfl⟩ := List.head?_eq_some_iff.1 (h.1.resolve_left (not_not.2 hr))
      exact .inr ⟨[], ['\r', '\n'], t, by rw [hr]; rfl, .inr rfl, by simp, by simp⟩
    rcases ih h.2 with ⟨hn', hr'⟩ | ⟨l, nl, t, rfl, hnl, hn', hr'⟩
    · exact .inl ⟨by simp [Ne.symm hn, hn'], by simp [Ne.symm hr, hr']⟩
    · exact .inr ⟨c :: l, nl, t, rfl, hnl, by simp [Ne.symm hn, hn'], by simp [Ne.symm hr, hr']⟩

/-- Content starts with no blank and no line feed. -/
lemma head?_of_isContent {i : Nat} {u : Token} (hu : u ∈ (scanFrom false i s).head?)
    (hcontent : u.isContent) : ∀ c ∈ s.head?, isBlank c = false ∧ c ≠ '\n' := by
  intro c hc
  obtain ⟨s, rfl⟩ := List.head?_eq_some_iff.1 hc
  have hmem := List.mem_of_mem_head? hu
  rw [scanFrom_cons] at hu
  obtain rfl := Option.some.inj hu
  refine ⟨isBlank_of_mem_text hmem (isSeparator_eq_false_of_isContent hcontent) c (by simp), ?_⟩
  rintro rfl
  exact (isContent_iff.1 hcontent).1 (by simp [next_eq])

/-- Content that starts no tag goes on with text. -/
lemma continues_of_head {i : Nat} {u : Token} (hu : u ∈ (scanFrom false i s).head?)
    (hcontent : u.isContent) (hmarker : u.kind ≠ .marker) : continues true s := by
  have hhead := head?_of_isContent hu hcontent
  cases s with
  | nil => simp at hu
  | cons c s =>
    rw [scanFrom_cons] at hu
    obtain rfl := Option.some.inj hu
    obtain ⟨hc, hn⟩ := hhead c rfl
    have htag : startsTag (c :: s) = false := by
      by_contra htag
      rw [Bool.not_eq_false] at htag
      have hat := htag
      rw [startsTag_cons, Bool.and_eq_true, decide_eq_true_eq] at hat
      obtain rfl := hat.1
      simp [next_eq, htag] at hmarker
    exact continues_iff.2 ⟨⟨c, rfl, hc, hn, by simp⟩, htag⟩

/-- Where a text goes on is seen in its first line. -/
lemma continues_append_iff {t : Text} (hs : s ≠ []) (ht : ∀ c ∈ t.head?, isTagNameStart c = false) :
    continues stars (s ++ t) ↔ continues stars s := by
  rw [continues_iff, continues_iff, List.head?_append_of_ne_nil _ hs, startsTag_congr ht hs]

/-- A line goes on with the text in front of it in the folded text too. -/
lemma Folds.continues {stars' : Bool} (h : Folds stars s f) (hs : continues stars' s)
    (hr : s.head? ≠ some '\r') : continues stars' f := by
  cases h with
  | line _ => exact hs
  | @cons l nl d bl s f hl hnl hd hbl hf h =>
    cases l with
    | nil =>
      obtain ⟨c, hc, -, hn⟩ := head?_of_continues hs
      rcases hnl with rfl | rfl
      · exact absurd (Option.some.inj hc).symm hn
      · exact absurd rfl hr
    | cons c l =>
      have hbreak : ∀ c ∈ (nl ++ d ++ (bl ++ s)).head?, isTagNameStart c = false := by
        rcases hnl with rfl | rfl
        · exact fun c hc => Option.some.inj hc ▸ rfl
        · exact fun c hc => Option.some.inj hc ▸ rfl
      rw [continues_append_iff (List.cons_ne_nil c l) hbreak] at hs
      exact continues_append hs fun c hc => Option.some.inj hc ▸ rfl

/-- Behind a decoration without a star stands none, but in a closing delimiter. -/
lemma isPrefix_of_decoration {d bl : Text} (hd : decoration (d ++ (bl ++ s)) = d) (hstar : '*' ∉ d)
    (hbl : ∀ c ∈ bl, isBlank c) (hs : s.head? = some '*') : ['*', '/'] <+: s := by
  have hblank : ∀ c ∈ d ++ bl, isBlank c := by
    intro c hc
    rcases List.mem_append.1 hc with hc | hc
    · refine (mem_decoration (hd.symm ▸ hc)).resolve_right ?_
      rintro rfl
      exact hstar hc
    · exact hbl c hc
  obtain ⟨s, rfl⟩ := List.head?_eq_some_iff.1 hs
  rw [← List.append_assoc, decoration_of_blank hblank (by simp [isBlank]), List.append_assoc,
    List.append_right_eq_self, List.append_eq_nil_iff] at hd
  have hslash : s.head? = some '/' := by
    by_contra hslash
    simp only [Token.star, ne_eq, not_true_eq_false, hslash, or_self, if_false] at hd
    split_ifs at hd
    · exact hd.2
    · exact hd.2
  obtain ⟨s, rfl⟩ := List.head?_eq_some_iff.1 hslash
  exact ⟨s, rfl⟩

/-- Content behind a decoration goes on with the text in front of the line. -/
lemma continues_of_decoration {d bl : Text} {j : Nat} {u : Token}
    (hd : decoration (d ++ (bl ++ s)) = d) (hbl : ∀ c ∈ bl, isBlank c)
    (hu : u ∈ (scanFrom false j s).head?) (hcontent : u.isContent) (hmarker : u.kind ≠ .marker)
    (hstar : stars = false → '*' ∉ d) : continues stars s := by
  obtain ⟨⟨c, hc, hblank, hn, -⟩, htag⟩ :=
    continues_iff.1 (continues_of_head hu hcontent hmarker)
  refine continues_iff.2 ⟨⟨c, hc, hblank, hn, fun hstars => ?_⟩, htag⟩
  rintro rfl
  obtain ⟨r, rfl⟩ := isPrefix_of_decoration hd (hstar hstars) hbl hc
  rw [List.cons_append, scanFrom_cons] at hu
  obtain rfl := Option.some.inj hu
  exact (isContent_iff.1 hcontent).2.2 rfl

/-- A paired carriage return starts a line break. -/
lemma head?_ne_return_of_isContent {j : Nat} {u : Token} (hr : pairsReturns s)
    (hu : u ∈ (scanFrom false j s).head?) (hcontent : u.isContent) : s.head? ≠ some '\r' := by
  intro hhead
  obtain ⟨r, rfl⟩ := List.head?_eq_some_iff.1 hhead
  obtain ⟨r, rfl⟩ := List.head?_eq_some_iff.1 (head?_of_pairsReturns (s := []) hr)
  rw [scanFrom_cons] at hu
  obtain rfl := Option.some.inj hu
  exact (isContent_iff.1 hcontent).1 rfl

/-- The text of a node folds to some text. -/
theorem exists_folds {i : Nat} (hr : pairsReturns s)
    (hclosing : ∀ t ∈ scanFrom false i s, t.kind ≠ .closing) (hlines : goesOn (scanFrom false i s))
    (hstars : stars = false → ∀ t ∈ scanFrom false i s, t.kind = .lineBreak → '*' ∉ t.text) :
    ∃ f, Folds stars s f := by
  induction hlength : s.length using Nat.strongRecOn generalizing s i with
  | ind n ih =>
    rcases exists_line hr with ⟨hn, hr'⟩ | ⟨l, nl, y, rfl, hnl, hn, hr'⟩
    · exact ⟨s, .line ⟨hn, hr', closes_eq_false_of_kind hclosing⟩⟩
    -- Behind the line break stand its decoration, blanks, and the next line.
    obtain ⟨d, bl, x, rfl, hd, hbl, hx⟩ : ∃ d bl x : Text, y = d ++ (bl ++ x) ∧
        decoration (d ++ (bl ++ x)) = d ∧ (∀ c ∈ bl, isBlank c) ∧
          ∀ c ∈ x.head?, isBlank c = false := by
      obtain ⟨y', hy⟩ := isPrefix_decoration y
      obtain ⟨bl, x, rfl, hbl, hx⟩ := exists_span isBlank y'
      exact ⟨decoration y, bl, x, hy.symm, by rw [hy], hbl, hx⟩
    obtain ⟨t, blanks, j, hk, htext, hblanks, hscan⟩ := exists_scanFrom_line hn hr' hnl hd hbl hx i
    rw [← List.append_assoc nl] at hlines hclosing hstars hr hlength ⊢
    rw [hscan] at hlines hclosing hstars
    have hmem : ∀ u ∈ scanFrom false j x,
        u ∈ scanFrom false i l ++ t :: (blanks ++ scanFrom false j x) := fun u hu => by simp [hu]
    obtain ⟨u, hu, hcontent, hmarker⟩ : ∃ u ∈ (scanFrom false j x).head?,
        u.isContent ∧ u.kind ≠ .marker := by
      have hline := goesOn_of_append hlines
      rw [goesOn, dropWhile_blank hblanks fun t ht => kind_ne_blank_of_head hx ht, Bool.and_eq_true,
        Bool.or_eq_true, Option.any_eq_true] at hline
      obtain ⟨u, hu, hline⟩ := hline.1.resolve_left (by simp [hk])
      rw [Bool.and_eq_true, decide_eq_true_eq] at hline
      exact ⟨u, hu, hline⟩
    have hcontinues : continues stars x := by
      refine continues_of_decoration hd hbl hu hcontent hmarker fun hstars' hmem => ?_
      exact hstars hstars' t (by simp) hk (htext ▸ List.mem_append_right _ hmem)
    have hpairs : pairsReturns x := pairsReturns_of_suffix ⟨l ++ (nl ++ d ++ bl), by simp⟩ hr
    have hlt : x.length < n := by
      have hpos : 0 < nl.length := by rcases hnl with rfl | rfl <;> simp
      rw [← hlength]
      simp only [List.length_append]
      omega
    have hrest : goesOn (scanFrom false j x) := by
      rw [← List.cons_append, ← List.append_assoc] at hlines
      exact goesOn_of_append hlines
    obtain ⟨f, hf⟩ := ih x.length hlt hpairs
      (fun u hu => hclosing u (hmem u hu))
      hrest
      (fun h u hu => hstars h u (hmem u hu)) rfl
    have hline : IsLine l := ⟨hn, hr', closes_eq_false_of_kind (i := i) fun u hu =>
      hclosing u (List.mem_append_left _ hu)⟩
    exact ⟨_, .cons hline hnl hd hbl (hf.continues hcontinues
      (head?_ne_return_of_isContent hpairs hu hcontent)) hf⟩

end Text

end DocComment
